import FrameGraph.Proofs.EditHistory
import FrameGraph.Proofs.RepairedTrees

/-!
Revisions drawn from one counter. Main statement: a tree that is changed gets a revision later than
all that were drawn before, so along a run trees of one revision have one structure.
-/

namespace FrameGraph

namespace Tree

/-- Whether two trees have the same nodes, but for flags, and the same links. -/
def SameStructure (tree other : Tree) : Prop :=
  tree.unflagged.nodes = other.unflagged.nodes ∧ tree.links = other.links

instance (tree other : Tree) : Decidable (tree.SameStructure other) :=
  inferInstanceAs (Decidable (_ ∧ _))

variable {tree other : Tree} {stamp : Stamp}

theorem SameStructure.refl (tree : Tree) : tree.SameStructure tree :=
  ⟨rfl, rfl⟩

theorem SameStructure.of_eq (same : other = tree) : tree.SameStructure other :=
  same ▸ .refl tree

theorem SameStructure.symm (same : tree.SameStructure other) : other.SameStructure tree :=
  ⟨same.1.symm, same.2.symm⟩

theorem SameStructure.trans {third : Tree} (first : tree.SameStructure other)
    (second : other.SameStructure third) : tree.SameStructure third :=
  ⟨first.1.trans second.1, first.2.trans second.2⟩

theorem sameStructure_flagInvalid (tree : Tree) (identifiers : List String) :
    tree.SameStructure (tree.flagInvalid identifiers) :=
  ⟨congrArg nodes unflagged_flagInvalid.symm, rfl⟩

theorem unlink_of_unlinked {node socket : String}
    (unlinked : tree.isInputLinked node socket = false) :
    tree.unlink node socket stamp = (false, tree) :=
  if_neg (by rw [unlinked]; exact Bool.false_ne_true)

theorem prune_of_sound
    (sound : ∀ link ∈ tree.links, tree.hasSource link = true ∧ tree.hasTarget link = true) :
    tree.prune stamp = (0, tree) := by
  have all : tree.soundLinks = tree.links :=
    List.filter_eq_self.mpr fun link member => Bool.and_eq_true_iff.mpr (sound link member)
  simp [prune, all]

/-- What becomes of a tree: it is left alone if there is nothing to do in it, and gets a revision
from the limit on if it is not. -/
structure Updated (idle : Tree → Prop) (limit : Nat) (before after : Tree) : Prop where
  kept : idle before → after = before
  drawn : after = before ∨ limit ≤ after.revision

theorem Updated.refl (idle : Tree → Prop) (limit : Nat) (tree : Tree) :
    tree.Updated idle limit tree :=
  ⟨fun _ => rfl, .inl rfl⟩

end Tree

section Repair

variable {fresh : Nat → String} {repaired : Nat} {stamp : Stamp} {trees : List Tree}

theorem forall₂_updated_repairTrees (fresh : Nat → String) (repaired : Nat) (stamp : Stamp)
    (trees : List Tree) :
    List.Forall₂ (Tree.Updated (·.unidentified = 0) stamp.revision) trees
      (repairTrees fresh repaired stamp trees).2 := by
  refine (forall₂_repairTrees fresh repaired stamp trees).imp ?_
  rintro tree after ⟨start, later, -, -, newer, rfl⟩
  by_cases identified : tree.unidentified = 0
  · rw [Tree.repair_of_identified identified]
    exact .refl _ _ tree
  · exact ⟨fun none => absurd none identified,
      .inr (newer.trans (Tree.revision_repair identified fresh start _).ge)⟩

theorem mem_repairTrees {after : Tree}
    (member : after ∈ (repairTrees fresh repaired stamp trees).2) :
    after ∈ trees ∨ stamp.revision ≤ after.revision := by
  have related := forall₂_updated_repairTrees fresh repaired stamp trees
  obtain ⟨position, inside, rfl⟩ := List.getElem_of_mem member
  have there : position < trees.length := related.length_eq ▸ inside
  rcases (related.get there inside).drawn with same | drawn
  · exact .inl (List.mem_iff_getElem.mpr ⟨position, there, same.symm⟩)
  · exact .inr drawn

theorem eq_of_revision_repairTrees (drawn : ∀ tree ∈ trees, tree.revision < stamp.revision)
    {tree other : Tree} (member : tree ∈ (repairTrees fresh repaired stamp trees).2)
    (otherMember : other ∈ (repairTrees fresh repaired stamp trees).2)
    (stamped : stamp.revision ≤ tree.revision) (same : tree.revision = other.revision) :
    tree = other := by
  induction trees generalizing repaired stamp with
  | nil => contradiction
  | cons head rest ih =>
      rw [List.forall_mem_cons] at drawn
      rw [repairTrees_cons] at member otherMember
      by_cases identified : head.unidentified = 0
      · rw [if_pos identified, Tree.repair_of_identified identified] at member otherMember
        rcases List.mem_cons.mp member with rfl | member
        · exact absurd drawn.1 (Nat.not_lt.mpr stamped)
        rcases List.mem_cons.mp otherMember with rfl | otherMember
        · exact absurd drawn.1 (Nat.not_lt.mpr (same ▸ stamped))
        exact ih drawn.2 member otherMember stamped
      · rw [if_neg identified] at member otherMember
        have later {tree : Tree} (stamped : stamp.revision ≤ tree.revision)
            (member : tree ∈ (repairTrees fresh (repaired + head.unidentified)
              { stamp with revision := stamp.revision + 1 } rest).2) :
            stamp.revision + 1 ≤ tree.revision :=
          (mem_repairTrees member).resolve_left fun old =>
            absurd (drawn.2 tree old) (Nat.not_lt.mpr stamped)
        have headRevision := Tree.revision_repair identified fresh repaired stamp
        rcases List.mem_cons.mp member with rfl | member <;>
          rcases List.mem_cons.mp otherMember with rfl | otherMember
        · rfl
        · have behind := later (same ▸ stamped) otherMember
          omega
        · have behind := later stamped member
          omega
        · exact ih (fun tree inside => Nat.lt_succ_of_lt (drawn.2 tree inside)) member otherMember
            (later stamped member)

end Repair

theorem forall₂_modify {α : Type} {related : α → α → Prop} {change : α → α}
    (refl : ∀ a, related a a) (changed : ∀ a, related a (change a)) (position : Nat)
    (items : List α) : List.Forall₂ related items (items.modify position change) := by
  induction items generalizing position with
  | nil => rw [List.modify_nil]; exact .nil
  | cons first rest ih =>
      cases position with
      | zero => exact .cons (changed first) (List.forall₂_same.mpr fun a _ => refl a)
      | succ position => exact .cons (refl first) (ih position)

theorem mem_or_eq_of_mem_modify {α : Type} {change : α → α} {position : Nat} {items : List α}
    {a : α} (member : a ∈ items.modify position change) :
    a ∈ items ∨ ∃ b, items[position]? = some b ∧ a = change b := by
  obtain ⟨index, found⟩ := List.mem_iff_getElem?.mp member
  rw [List.getElem?_modify] at found
  obtain ⟨b, there, rfl⟩ := Option.map_eq_some_iff.mp found
  split
  · rename_i same
    exact .inr ⟨b, same ▸ there, rfl⟩
  · exact .inl (List.mem_of_getElem? there)

/-! ### Trees with one counter -/

/-- Trees, wherever they are held, and the counter from which they draw their revisions. -/
structure TreePool where
  trees : List Tree
  /-- The next revision. -/
  revision : Nat

/-- What changes trees in their places. -/
inductive TreeUpdate
  /-- An edit of one tree. Of the revisions that it draws the last stays; so many come before it. -/
  | edit (position : Nat) (registry : Registry) (edit : Edit) (passing : Nat) (time : String)
  /-- Identifiers for the nodes of a document, the trees of which stand together. -/
  | repair (position count : Nat) (fresh : Nat → String) (time : String)

/-- Whether there is nothing in the tree for the update to do: no link to take out, none that is
dangling, no identifier to give. -/
def TreeUpdate.Idle : TreeUpdate → Tree → Prop
  | .edit _ _ (.unlink node socket) _ _, tree => tree.isInputLinked node socket = false
  | .edit _ _ .prune _ _, tree =>
    ∀ link ∈ tree.links, tree.hasSource link = true ∧ tree.hasTarget link = true
  | .edit .., _ => False
  | .repair .., tree => ∀ node ∈ tree.nodes, node.identifier ≠ ""

inductive PoolAction
  | update (update : TreeUpdate)
  /-- A tree is made or loaded. -/
  | add (tree : Tree)
  /-- Trees are dropped, copied and moved about. -/
  | arrange (positions : List Nat)
  /-- A frame flags nodes of a tree. -/
  | flag (position : Nat) (identifiers : List String)

namespace TreePool

def withTrees (pool : TreePool) (trees : List Tree) : TreePool where
  trees
  revision := trees.foldl (fun next tree => max next (tree.revision + 1)) pool.revision

def update (pool : TreePool) : TreeUpdate → TreePool
  | .edit position registry edit passing time =>
    let stamp : Stamp := ⟨pool.revision + passing, time⟩
    pool.withTrees (pool.trees.modify position fun tree =>
      (Change.edit edit).apply registry stamp tree)
  | .repair position count fresh time =>
    let document : Document := ⟨(pool.trees.drop position).take count⟩
    pool.withTrees (pool.trees.take position ++
      ((document.repair fresh ⟨pool.revision, time⟩).2.trees ++ pool.trees.drop (position + count)))

def step (pool : TreePool) : PoolAction → TreePool
  | .update update => pool.update update
  | .add tree => pool.withTrees (pool.trees ++ [{ tree with revision := pool.revision }])
  | .arrange positions => pool.withTrees (positions.filterMap fun i => pool.trees[i]?)
  | .flag position identifiers =>
    pool.withTrees (pool.trees.modify position (·.flagInvalid identifiers))

def run (actions : List PoolAction) : TreePool :=
  actions.foldl step ⟨[], 1⟩

variable {pool : TreePool} {tree other before after : Tree} {position : Nat}

theorem run_concat (actions : List PoolAction) (action : PoolAction) :
    run (actions ++ [action]) = (run actions).step action := by
  simp [run]

@[simp] theorem trees_withTrees (pool : TreePool) (trees : List Tree) :
    (pool.withTrees trees).trees = trees := rfl

theorem foldl_max_revision (trees : List Tree) (next : Nat) :
    next ≤ trees.foldl (fun next tree => max next (tree.revision + 1)) next ∧
      ∀ tree ∈ trees,
        tree.revision < trees.foldl (fun next tree => max next (tree.revision + 1)) next := by
  induction trees generalizing next with
  | nil => exact ⟨le_rfl, nofun⟩
  | cons first rest ih =>
      obtain ⟨grown, drawn⟩ := ih (max next (first.revision + 1))
      refine ⟨(le_max_left _ _).trans grown, List.forall_mem_cons.mpr ⟨?_, drawn⟩⟩
      exact (le_max_right _ _).trans grown

theorem revision_le_step (pool : TreePool) (action : PoolAction) :
    pool.revision ≤ (pool.step action).revision := by
  cases action with
  | update update => cases update <;> exact (foldl_max_revision _ _).1
  | _ => exact (foldl_max_revision _ _).1

theorem revision_lt_step {action : PoolAction} (member : tree ∈ (pool.step action).trees) :
    tree.revision < (pool.step action).revision := by
  cases action with
  | update update => cases update <;> exact (foldl_max_revision _ _).2 tree member
  | _ => exact (foldl_max_revision _ _).2 tree member

theorem updated_edit {registry : Registry} {edit : Edit} {passing : Nat} {time : String}
    (tree : Tree) (limit : Nat) :
    tree.Updated (TreeUpdate.Idle (.edit position registry edit passing time)) limit
      ((Change.edit edit).apply registry ⟨limit + passing, time⟩ tree) := by
  refine ⟨fun idle => ?_, ?_⟩
  · cases edit with
    | unlink node socket => exact congrArg Prod.snd (Tree.unlink_of_unlinked idle)
    | prune => exact congrArg Prod.snd (Tree.prune_of_sound idle)
    | _ => exact idle.elim
  · simp only [Change.apply]
    split
    · rename_i done
      refine (Edit.apply_keptOrStamped done).imp_right fun stamped => ?_
      rw [stamped]
      exact Nat.le_add_right _ _
    · exact .inl rfl

/-- A tree that is updated stays as it is or gets a revision that had not been drawn. -/
theorem forall₂_updated (pool : TreePool) (update : TreeUpdate) :
    List.Forall₂ (Tree.Updated update.Idle pool.revision) pool.trees
      (pool.update update).trees := by
  cases update with
  | edit position registry edit passing time =>
      exact forall₂_modify (.refl _ _) (updated_edit · _) position pool.trees
  | repair position count fresh time =>
      have kept (trees : List Tree) : List.Forall₂ (Tree.Updated
          (TreeUpdate.Idle (.repair position count fresh time)) pool.revision) trees trees :=
        List.forall₂_same.mpr fun tree _ => .refl _ _ tree
      have repaired := (forall₂_updated_repairTrees fresh 0 ⟨pool.revision, time⟩
        ((pool.trees.drop position).take count)).imp fun _ _ updated =>
          (⟨fun idle => updated.kept (Tree.unidentified_eq_zero_iff.mpr idle), updated.drawn⟩ :
            Tree.Updated (TreeUpdate.Idle (.repair position count fresh time)) pool.revision _ _)
      have parted : pool.trees = pool.trees.take position ++
          ((pool.trees.drop position).take count ++ pool.trees.drop (position + count)) := by
        rw [← List.drop_drop, List.take_append_drop, List.take_append_drop]
      rw [update, trees_withTrees]
      nth_rewrite 1 [parted]
      exact List.rel_append (kept _) (List.rel_append repaired (kept _))

theorem step_heldOrDrawn {action : PoolAction} (member : tree ∈ (pool.step action).trees) :
    (∃ old ∈ pool.trees, old.SameStructure tree ∧ old.revision = tree.revision) ∨
      pool.revision ≤ tree.revision := by
  have held (member : tree ∈ pool.trees) :
      ∃ old ∈ pool.trees, old.SameStructure tree ∧ old.revision = tree.revision :=
    ⟨tree, member, .refl tree, rfl⟩
  cases action with
  | update update =>
      have related := pool.forall₂_updated update
      obtain ⟨position, inside, rfl⟩ := List.getElem_of_mem member
      have there : position < pool.trees.length := related.length_eq ▸ inside
      rcases (related.get there inside).drawn with same | drawn
      · exact .inl (held (List.mem_iff_getElem.mpr ⟨position, there, same.symm⟩))
      · exact .inr drawn
  | add new =>
      rcases List.mem_append.mp member with member | member
      · exact .inl (held member)
      · rw [List.eq_of_mem_singleton member]
        exact .inr le_rfl
  | arrange positions =>
      obtain ⟨position, -, found⟩ := List.mem_filterMap.mp member
      exact .inl (held (List.mem_of_getElem? found))
  | flag position identifiers =>
      rcases mem_or_eq_of_mem_modify member with member | ⟨old, found, rfl⟩
      · exact .inl (held member)
      · exact .inl ⟨old, List.mem_of_getElem? found, old.sameStructure_flagInvalid identifiers, rfl⟩

theorem step_apart {action : PoolAction}
    (drawn : ∀ tree ∈ pool.trees, tree.revision < pool.revision)
    (member : tree ∈ (pool.step action).trees) (otherMember : other ∈ (pool.step action).trees)
    (new : pool.revision ≤ tree.revision) (same : tree.revision = other.revision) :
    tree = other := by
  have strange : tree ∉ pool.trees := fun member =>
    absurd (drawn tree member) (Nat.not_lt.mpr new)
  have otherStrange : other ∉ pool.trees := fun member =>
    absurd (drawn other member) (Nat.not_lt.mpr (same ▸ new))
  cases action with
  | update update =>
      cases update with
      | edit position registry edit passing time =>
          obtain ⟨old, found, rfl⟩ := (mem_or_eq_of_mem_modify member).resolve_left strange
          obtain ⟨other, otherFound, rfl⟩ :=
            (mem_or_eq_of_mem_modify otherMember).resolve_left otherStrange
          rw [Option.some.inj (found.symm.trans otherFound)]
      | repair position count fresh time =>
          have repaired {tree : Tree} (strange : tree ∉ pool.trees)
              (member : tree ∈ (pool.update (.repair position count fresh time)).trees) :
              tree ∈ (repairTrees fresh 0 ⟨pool.revision, time⟩
                ((pool.trees.drop position).take count)).2 := by
            rcases List.mem_append.mp member with front | rest
            · exact absurd (List.mem_of_mem_take front) strange
            · exact (List.mem_append.mp rest).resolve_right fun back =>
                strange (List.mem_of_mem_drop back)
          exact eq_of_revision_repairTrees
            (fun tree inside => drawn tree (List.mem_of_mem_drop (List.mem_of_mem_take inside)))
            (repaired strange member) (repaired otherStrange otherMember) new same
  | add tree =>
      have made := (List.mem_append.mp member).resolve_left strange
      have otherMade := (List.mem_append.mp otherMember).resolve_left otherStrange
      rw [List.eq_of_mem_singleton made, List.eq_of_mem_singleton otherMade]
  | arrange positions =>
      obtain ⟨position, -, found⟩ := List.mem_filterMap.mp member
      exact absurd (List.mem_of_getElem? found) strange
  | flag position identifiers =>
      obtain ⟨old, found, rfl⟩ := (mem_or_eq_of_mem_modify member).resolve_left strange
      exact absurd (drawn old (List.mem_of_getElem? found)) (Nat.not_lt.mpr new)

def Seen (actions : List PoolAction) (tree : Tree) : Prop :=
  ∃ earlier, earlier <+: actions ∧ tree ∈ (run earlier).trees

theorem not_seen_nil : ¬ Seen [] tree := by
  rintro ⟨earlier, before, member⟩
  rw [List.prefix_nil.mp before] at member
  contradiction

theorem seen_concat {actions : List PoolAction} {action : PoolAction} :
    Seen (actions ++ [action]) tree ↔
      Seen actions tree ∨ tree ∈ ((run actions).step action).trees := by
  constructor
  · rintro ⟨earlier, before, member⟩
    rcases List.prefix_concat_iff.mp before with rfl | before
    · exact .inr (run_concat actions action ▸ member)
    · exact .inl ⟨earlier, before, member⟩
  · rintro (⟨earlier, before, member⟩ | member)
    · exact ⟨earlier, before.trans (List.prefix_append _ _), member⟩
    · exact ⟨_, List.prefix_rfl, (run_concat actions action).symm ▸ member⟩

/-- What a run keeps of the trees seen in it: the counter stands behind their revisions, and those
of one revision have one structure. -/
structure Keeps (actions : List PoolAction) : Prop where
  drawn : ∀ tree, Seen actions tree → tree.revision < (run actions).revision
  apart : ∀ tree other, Seen actions tree → Seen actions other → tree.revision = other.revision →
    tree.SameStructure other

theorem seen_of_mem {actions : List PoolAction} (member : tree ∈ (run actions).trees) :
    Seen actions tree :=
  ⟨actions, List.prefix_rfl, member⟩

theorem Keeps.concat {actions : List PoolAction} (keeps : Keeps actions) (action : PoolAction) :
    Keeps (actions ++ [action]) := by
  have oldOrNew {tree : Tree} (seen : Seen (actions ++ [action]) tree) :
      (∃ old, Seen actions old ∧ old.SameStructure tree ∧ old.revision = tree.revision) ∨
        (tree ∈ ((run actions).step action).trees ∧ (run actions).revision ≤ tree.revision) := by
    rcases seen_concat.mp seen with seen | member
    · exact .inl ⟨tree, seen, .refl tree, rfl⟩
    · rcases step_heldOrDrawn member with ⟨old, inside, like⟩ | drawn
      · exact .inl ⟨old, seen_of_mem inside, like⟩
      · exact .inr ⟨member, drawn⟩
  refine ⟨fun tree seen => ?_, fun tree other seen otherSeen same => ?_⟩
  · rw [run_concat]
    rcases seen_concat.mp seen with seen | member
    · exact (keeps.drawn tree seen).trans_le (revision_le_step _ action)
    · exact revision_lt_step member
  · rcases oldOrNew seen with ⟨old, oldSeen, like, revision⟩ | ⟨member, new⟩ <;>
      rcases oldOrNew otherSeen with
        ⟨third, thirdSeen, otherLike, otherRevision⟩ | ⟨otherMember, otherNew⟩
    · have alike := keeps.apart old third oldSeen thirdSeen (by omega)
      exact like.symm.trans (alike.trans otherLike)
    · have before := keeps.drawn old oldSeen
      omega
    · have before := keeps.drawn third thirdSeen
      omega
    · rw [step_apart (fun tree inside => keeps.drawn tree (seen_of_mem inside)) member otherMember
        new same]
      exact .refl other

theorem keeps_run (actions : List PoolAction) : Keeps actions := by
  induction actions using List.reverseRecOn with
  | nil => exact ⟨fun _ seen => absurd seen not_seen_nil, fun _ _ seen => absurd seen not_seen_nil⟩
  | append_singleton actions action keeps => exact keeps.concat action

/-- An update that changes the structure of a tree leaves it with a revision later than all seen so
far, and one without anything to do in a tree leaves its revision. Along a run, trees of one
revision have one structure. -/
theorem revisions_along_run (actions : List PoolAction) :
    (∀ (update : TreeUpdate) (position : Nat) (before after : Tree),
      (run actions).trees[position]? = some before →
      ((run actions).update update).trees[position]? = some after →
        (¬ before.SameStructure after →
          ∀ tree, Seen actions tree → tree.revision < after.revision) ∧
        (update.Idle before → after = before)) ∧
    ∀ tree other, Seen actions tree → Seen actions other → tree.revision = other.revision →
      tree.SameStructure other := by
  have keeps := keeps_run actions
  refine ⟨fun update position before after found updated => ?_, keeps.apart⟩
  obtain ⟨there, rfl⟩ := List.getElem?_eq_some_iff.mp found
  obtain ⟨inside, rfl⟩ := List.getElem?_eq_some_iff.mp updated
  have related := ((run actions).forall₂_updated update).get there inside
  refine ⟨fun changed tree seen => ?_, related.kept⟩
  rcases related.drawn with same | drawn
  · exact absurd (.of_eq same) changed
  · exact (keeps.drawn tree seen).trans_le drawn

/-- A tree with a node that lacks an identifier, and a copy of the tree. -/
def copied : List PoolAction :=
  [.add (.new "Main" ⟨0, ""⟩),
    .update (.edit 0 .empty (.addNode (.ofKind "" "pipe")) 0 ""),
    .arrange [0, 0]]

def repairOfFirst : TreeUpdate :=
  .repair 0 1 Identifier.numbered ""

theorem revisions_along_run_copied :
    ∃ before after, (run copied).trees[0]? = some before ∧
      ((run copied).update repairOfFirst).trees[0]? = some after ∧
      ¬ before.SameStructure after ∧ ∀ tree, Seen copied tree → tree.revision < after.revision := by
  have changed : ¬ Tree.SameStructure ((run copied).trees.get ⟨0, by decide⟩)
      (((run copied).update repairOfFirst).trees.get ⟨0, by decide⟩) := by
    decide +kernel
  exact ⟨_, _, rfl, rfl, changed,
    ((revisions_along_run copied).1 repairOfFirst 0 _ _ rfl rfl).1 changed⟩

end TreePool

end FrameGraph
