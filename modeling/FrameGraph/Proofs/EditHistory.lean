import FrameGraph.Edit
import FrameGraph.Proofs.NodeSockets
import FrameGraph.Proofs.Revisions
import FrameGraph.Proofs.Validation
import Mathlib.Logic.Relation

/-!
Trees reached by edits. What an edit does to nodes and links is said once, as a list of elementary
steps; every invariant is kept by each of them.
-/

namespace FrameGraph

/-! Changing one element of a list. -/

section UpdateFirst

variable {α : Type} {test : α → Bool} {change : α → α} {items : List α} {a : α}

theorem updateFirst_congr (found : items.find? test = some a) (change : α → α) :
    updateFirst test change items = updateFirst test (fun _ => change a) items := by
  induction items with
  | nil => rfl
  | cons first rest ih =>
      cases hit : test first with
      | true =>
          rw [List.find?_cons_of_pos hit] at found
          obtain rfl := Option.some.inj found
          simp [updateFirst, hit]
      | false =>
          have miss : ¬ test first = true := by rw [hit]; exact Bool.false_ne_true
          rw [List.find?_cons_of_neg miss] at found
          simp [updateFirst, hit, ih found]

theorem updateFirst_of_none (none : items.find? test = none) :
    updateFirst test change items = items := by
  induction items with
  | nil => rfl
  | cons first rest ih =>
      rw [List.find?_eq_none] at none
      have miss := none first List.mem_cons_self
      rw [updateFirst, if_neg miss, ih (List.find?_eq_none.mpr fun a member =>
        none a (List.mem_cons_of_mem _ member))]

theorem updateFirst_self (found : items.find? test = some a) :
    updateFirst test (fun _ => a) items = items := by
  induction items with
  | nil => rfl
  | cons first rest ih =>
      rw [updateFirst]
      split
      · rename_i hit
        rw [List.find?_cons_of_pos hit] at found
        rw [Option.some.inj found]
      · rename_i miss
        rw [List.find?_cons_of_neg miss] at found
        rw [ih found]

theorem updateFirst_updateFirst (test : α → Bool) {first : α → α}
    (stays : ∀ item, test item = true → test (first item) = true) (second : α → α)
    (items : List α) :
    updateFirst test second (updateFirst test first items) =
      updateFirst test (fun item => second (first item)) items := by
  induction items with
  | nil => rfl
  | cons item rest ih =>
      by_cases here : test item = true
      · simp [updateFirst, here, stays item here]
      · simp [updateFirst, here, ih]

theorem mem_or_eq_of_mem_updateFirst {b : α} (member : a ∈ updateFirst test (fun _ => b) items) :
    a ∈ items ∨ a = b := by
  induction items with
  | nil => cases member
  | cons first rest ih =>
      rw [updateFirst] at member
      split at member
      · rcases List.mem_cons.mp member with rfl | member
        · exact .inr rfl
        · exact .inl (List.mem_cons_of_mem _ member)
      · rcases List.mem_cons.mp member with rfl | member
        · exact .inl List.mem_cons_self
        · exact (ih member).imp_left (List.mem_cons_of_mem _)

theorem forall_mem_updateFirst {P : α → Prop} (all : ∀ item ∈ items, P item)
    (kept : ∀ item, P item → P (change item)) :
    ∀ item ∈ updateFirst test change items, P item := by
  induction items with
  | nil => exact all
  | cons first rest ih =>
      obtain ⟨head, tail⟩ := List.forall_mem_cons.mp all
      rw [updateFirst]
      split
      · exact List.forall_mem_cons.mpr ⟨kept first head, tail⟩
      · exact List.forall_mem_cons.mpr ⟨head, ih tail⟩

theorem mem_updateFirst_of_mem {b c : α} (found : items.find? test = some a) (member : c ∈ items) :
    c ∈ updateFirst test (fun _ => b) items ∨
      (c = a ∧ b ∈ updateFirst test (fun _ => b) items) := by
  induction items with
  | nil => cases member
  | cons first rest ih =>
      rw [updateFirst]
      cases hit : test first with
      | true =>
          rw [List.find?_cons_of_pos hit] at found
          obtain rfl := Option.some.inj found
          rw [if_pos rfl]
          rcases List.mem_cons.mp member with rfl | member
          · exact .inr ⟨rfl, List.mem_cons_self⟩
          · exact .inl (List.mem_cons_of_mem _ member)
      | false =>
          have miss : ¬ test first = true := by rw [hit]; exact Bool.false_ne_true
          rw [List.find?_cons_of_neg miss] at found
          rw [if_neg Bool.false_ne_true]
          rcases List.mem_cons.mp member with rfl | member
          · exact .inl List.mem_cons_self
          · exact (ih found member).imp (List.mem_cons_of_mem _)
              fun ⟨same, inside⟩ => ⟨same, List.mem_cons_of_mem _ inside⟩

theorem map_updateFirst {β : Type} {key : α → β} {b : α} (found : items.find? test = some a)
    (same : key b = key a) : (updateFirst test (fun _ => b) items).map key = items.map key := by
  induction items with
  | nil => rfl
  | cons first rest ih =>
      cases hit : test first with
      | true =>
          rw [List.find?_cons_of_pos hit] at found
          obtain rfl := Option.some.inj found
          simp [updateFirst, hit, same]
      | false =>
          have miss : ¬ test first = true := by rw [hit]; exact Bool.false_ne_true
          rw [List.find?_cons_of_neg miss] at found
          simp [updateFirst, hit, ih found]

end UpdateFirst

/-! The hooks of kinds. -/

/-- What relates a node to what each hook of the kind makes of it. -/
structure Kind.Hooks (kind : Kind) (R : Node → Node → Prop) : Prop where
  create : ∀ node, R node (kind.create node)
  edit : ∀ node, R node (kind.edit node)
  duplicate : ∀ copy source, R copy (kind.duplicate copy source)
  socketChanged : ∀ node, R node (kind.socketChanged node)
  propertyChanged : ∀ node property, R node (kind.propertyChanged node property)

theorem Kind.Hooks.mono {kind : Kind} {R S : Node → Node → Prop} (hooks : kind.Hooks R)
    (weaker : ∀ node after, R node after → S node after) : kind.Hooks S where
  create node := weaker _ _ (hooks.create node)
  edit node := weaker _ _ (hooks.edit node)
  duplicate copy source := weaker _ _ (hooks.duplicate copy source)
  socketChanged node := weaker _ _ (hooks.socketChanged node)
  propertyChanged node property := weaker _ _ (hooks.propertyChanged node property)

/-- Whether every socket of a node survives the hook on changed sockets. -/
def Kind.KeepsSockets (kind : Kind) : Prop :=
  ∀ node side, node.identifiers side ⊆ (kind.socketChanged node).identifiers side

namespace Registry

def Hooks (registry : Registry) (R : Node → Node → Prop) : Prop :=
  ∀ ⦃name kind⦄, registry.kind? name = some kind → kind.Hooks R

/-- Whether the hooks of the registered kinds, called as edits call them, keep a property of
nodes. -/
structure Keeps (registry : Registry) (P : Node → Prop) : Prop where
  created {name kind} (found : registry.kind? name = some kind) (fresh : String) :
    P (kind.create (Node.ofKind fresh name))
  copied {kind} {node : Node} (found : registry.kind? node.kind = some kind) (kept : P node)
    (fresh : String) :
    P (kind.duplicate { node with identifier := fresh, inInvalidNetwork := false } node)
  propertySet {kind} {node : Node} (found : registry.kind? node.kind = some kind) (kept : P node)
    (property : String) (value : Value) :
    P (kind.propertyChanged (node.setProperty property value) property)
  edited {kind} {node : Node} (found : registry.kind? node.kind = some kind) (kept : P node) :
    P (kind.edit node)
  socketsChanged {kind} {node : Node} (found : registry.kind? node.kind = some kind)
    (kept : P node) (side : Side) {sockets : List Socket}
    (less : sockets.Subperm (node.sockets side)) :
    P (kind.socketChanged (node.setSockets side sockets))
  parameterAdded {node : Node} (kept : P node) (type : SocketType) (name : String) (value : Value) :
    P (Catalog.GroupInput.addParameter node type name value)

end Registry

/-! Changes of a tree and what they do. -/

/-- What a history keeps to: the identifiers that new nodes may get in a tree, and the kinds at
whose nodes sockets may be moved. -/
structure EditRules where
  fresh : Tree → String → Prop
  movable : Kind → Prop

namespace EditRules

def any : EditRules := ⟨fun _ _ => True, fun _ => True⟩

def freshIdentifiers : EditRules :=
  ⟨fun tree identifier => identifier ∉ tree.identifiers, fun _ => True⟩

def keepingSockets : EditRules := ⟨fun _ _ => True, Kind.KeepsSockets⟩

end EditRules

/-- What may be done to a tree: an edit, or a parameter added to a node. -/
inductive Change
  | edit (edit : Edit)
  | newParameter (node : String) (type : SocketType) (name : String) (value : Value)

namespace Change

def apply (registry : Registry) (stamp : Stamp) (tree : Tree) : Change → Tree
  | edit made =>
    match made.apply registry stamp tree with
    | .ok (_, changed) => changed
    | .error _ => tree
  | newParameter node type name value =>
    tree.updateNode node (Catalog.GroupInput.addParameter · type name value)

/-- Whether the change keeps to the rules. No node comes ready made. -/
def Allowed (registry : Registry) (rules : EditRules) (tree : Tree) : Change → Prop
  | edit (.addNode _) => False
  | edit (.newNode _ fresh) | edit (.duplicateNode _ fresh) => rules.fresh tree fresh
  | edit (.moveSocket node _ _ _) =>
    ∀ target kind, tree.node? node = some target → registry.kind? target.kind = some kind →
      rules.movable kind
  | _ => True

end Change

namespace Tree

/-- The trees reached from an empty one by changes that are allowed. -/
inductive Reachable (registry : Registry) (rules : EditRules) : Tree → Prop
  | new (name : String) (stamp : Stamp) : Reachable registry rules (Tree.new name stamp)
  | change {tree : Tree} (reached : Reachable registry rules tree) (change : Change)
      (stamp : Stamp) (allowed : change.Allowed registry rules tree) :
      Reachable registry rules (change.apply registry stamp tree)

/-- A node that gives way to one that a hook has made of it; links that have lost an end are then
dropped. -/
inductive Adapted (registry : Registry) (target : Node) : Node → Prop
  | propertySet {kind : Kind} (found : registry.kind? target.kind = some kind) (property : String)
      (value : Value) :
      Adapted registry target (kind.propertyChanged (target.setProperty property value) property)
  | edited {kind : Kind} (found : registry.kind? target.kind = some kind) :
      Adapted registry target (kind.edit target)
  | socketRemoved {kind : Kind} (found : registry.kind? target.kind = some kind) (side : Side)
      (socket : String) :
      Adapted registry target
        (kind.socketChanged
          (target.setSockets side ((target.sockets side).eraseP (·.identifier = socket))))

/-- The elementary steps that changes consist of, as far as nodes and links are concerned. -/
inductive Step (registry : Registry) (rules : EditRules) (tree changed : Tree) : Prop
  | created {kind : Kind} {name fresh : String} (found : registry.kind? name = some kind)
      (free : rules.fresh tree fresh)
      (nodes : changed.nodes = tree.nodes ++ [kind.create (Node.ofKind fresh name)])
      (links : changed.links = tree.links)
  | copied {kind : Kind} {source : Node} {fresh : String} (member : source ∈ tree.nodes)
      (found : registry.kind? source.kind = some kind) (free : rules.fresh tree fresh)
      (nodes : changed.nodes = tree.nodes ++
        [kind.duplicate { source with identifier := fresh, inInvalidNetwork := false } source])
      (links : changed.links = tree.links)
  | removed (identifier : String)
      (nodes : changed.nodes = tree.nodes.eraseP (·.identifier = identifier))
      (links : changed.links = tree.links.filter fun link => !link.touches identifier)
  | linked {new : Link} (output : tree.HasOutput new.fromNode new.fromSocket)
      (input : tree.HasInput new.toNode new.toSocket) (nodes : changed.nodes = tree.nodes)
      (links : changed.links =
        tree.links.filter (fun link => !link.entersInput new.toNode new.toSocket) ++ [new])
  | dropped (nodes : changed.nodes = tree.nodes) (links : changed.links.Sublist tree.links)
  | settled {target after : Node} (found : tree.node? target.identifier = some target)
      (adapted : Adapted registry target after)
      (nodes : changed.nodes = (tree.updateNode target.identifier fun _ => after).nodes)
      (links : changed.links = (tree.updateNode target.identifier fun _ => after).soundLinks)
  | moved {kind : Kind} {target : Node} {side : Side} {sockets : List Socket}
      (found : tree.node? target.identifier = some target)
      (registered : registry.kind? target.kind = some kind) (allowed : rules.movable kind)
      (perm : sockets.Perm (target.sockets side))
      (nodes : changed.nodes = (tree.updateNode target.identifier fun _ =>
        kind.socketChanged (target.setSockets side sockets)).nodes)
      (links : changed.links = tree.links)
  | extended {target : Node} (found : tree.node? target.identifier = some target)
      (type : SocketType) (name : String) (value : Value)
      (nodes : changed.nodes = (tree.updateNode target.identifier fun _ =>
        Catalog.GroupInput.addParameter target type name value).nodes)
      (links : changed.links = tree.links)

abbrev Steps (registry : Registry) (rules : EditRules) : Tree → Tree → Prop :=
  Relation.ReflTransGen (Step registry rules)

variable {registry : Registry} {rules : EditRules} {tree changed : Tree} {stamp : Stamp}

theorem node?_identifier {identifier : String} {node : Node}
    (found : tree.node? identifier = some node) : tree.node? node.identifier = some node := by
  rw [(mem_of_node? found).2, found]

theorem nodes_updateNode {identifier : String} {node : Node}
    (found : tree.node? identifier = some node) (change : Node → Node) :
    tree.updateNode identifier change = tree.updateNode node.identifier fun _ => change node := by
  obtain ⟨-, rfl⟩ := mem_of_node? found
  exact congrArg (fun nodes => { tree with nodes }) (updateFirst_congr found change)

theorem updateNode_updateNode {identifier : String} {first : Node → Node}
    (stays : ∀ node, node.identifier = identifier → (first node).identifier = identifier)
    (second : Node → Node) :
    (tree.updateNode identifier first).updateNode identifier second =
      tree.updateNode identifier fun node => second (first node) := by
  have hit (node : Node) (here : decide (node.identifier = identifier) = true) :
      decide ((first node).identifier = identifier) = true :=
    decide_eq_true (stays node (of_decide_eq_true here))
  exact congrArg (fun nodes => { tree with nodes })
    (updateFirst_updateFirst (·.identifier = identifier) hit second tree.nodes)

theorem node?_updateNode {change : Node → Node}
    (keeps : ∀ node, (change node).identifier = node.identifier) (identifier other : String) :
    (tree.updateNode identifier change).node? other =
      if other = identifier then (tree.node? other).map change else tree.node? other := by
  unfold node? updateNode
  simp only
  induction tree.nodes with
  | nil => simp [updateFirst]
  | cons first rest ih =>
      rw [updateFirst]
      by_cases here : first.identifier = identifier
      · subst here
        by_cases same : first.identifier = other
        · simp [keeps, same]
        · simp [keeps, same, Ne.symm same]
      · by_cases same : first.identifier = other
        · subst same
          simp [here]
        · simpa [here, same] using ih

theorem node?_replaced {target : Node} (found : tree.node? target.identifier = some target)
    (after : Node) (same : after.identifier = target.identifier) (other : String) :
    (tree.updateNode target.identifier fun _ => after).node? other =
      if other = target.identifier then some after else tree.node? other := by
  let renamed (n : Node) : Node := { after with identifier := n.identifier }
  have keeps (n : Node) : (renamed n).identifier = n.identifier := rfl
  have replaced : renamed target = after := by simp only [renamed, ← same]
  have lookup := tree.node?_updateNode keeps target.identifier other
  rw [nodes_updateNode found, replaced] at lookup
  rw [lookup]
  split
  · rename_i here
    rw [here, found, Option.map_some, replaced]
  · rfl

theorem hasOutput_of_node? {identifier socket : String} {node : Node}
    (found : tree.node? identifier = some node) (output : node.hasOutput socket = true) :
    tree.HasOutput identifier socket := by
  obtain ⟨member, same⟩ := mem_of_node? found
  obtain ⟨s, inside, named⟩ := List.mem_map.mp (Node.hasOutput_iff.mp output)
  exact ⟨node, member, same, s, inside, named⟩

theorem hasInput_of_node? {identifier socket : String} {node : Node}
    (found : tree.node? identifier = some node) (input : node.hasInput socket = true) :
    tree.HasInput identifier socket := by
  obtain ⟨member, same⟩ := mem_of_node? found
  obtain ⟨s, inside, named⟩ := List.mem_map.mp (Node.hasInput_iff.mp input)
  exact ⟨node, member, same, s, inside, named⟩

theorem step_link {new : Link} (done : tree.link new stamp = .ok changed) :
    Step registry rules tree changed := by
  obtain ⟨source, target, fromFound, output, toFound, input, rfl⟩ := link_eq_ok.mp done
  exact .linked (hasOutput_of_node? fromFound output) (hasInput_of_node? toFound input) rfl rfl

theorem step_unlink (node socket : String) :
    Step registry rules tree (tree.unlink node socket stamp).2 := by
  unfold unlink
  split
  · exact .dropped rfl List.filter_sublist
  · exact .dropped rfl (.refl _)

theorem step_prune : Step registry rules tree (tree.prune stamp).2 := by
  unfold prune
  simp only
  split
  · exact .dropped rfl (.refl _)
  · exact .dropped rfl List.filter_sublist

theorem steps_absorbInto {node : String} {targets : List (String × String)} {count : Nat}
    (done : Catalog.GroupInput.absorbInto node stamp targets tree = .ok (count, changed)) :
    Steps registry rules tree changed := by
  induction targets generalizing tree count with
  | nil =>
      simp only [Catalog.GroupInput.absorbInto, Except.ok.injEq, Prod.mk.injEq] at done
      exact done.2 ▸ .refl
  | cons target rest ih =>
      obtain ⟨toNode, toSocket⟩ := target
      simp only [Catalog.GroupInput.absorbInto] at done
      split at done
      · exact .head (step_unlink toNode toSocket) (ih done)
      · rename_i parameter _
        simp only [bind_eq_ok, pure_eq_ok, Prod.mk.injEq] at done
        obtain ⟨group, found, linked, link, ⟨_, last⟩, absorbed, -, rfl⟩ := done
        have found := requireNode_eq_ok.mp found
        have extended : Step registry rules tree (tree.updateNode node
            (Catalog.GroupInput.addParameter · parameter.type parameter.name parameter.value)) := by
          rw [nodes_updateNode found]
          exact .extended (node?_identifier found) _ _ _ rfl rfl
        exact .head extended (.head (step_link link) (ih absorbed))

end Tree

open FrameGraph.Tree in
/-- An edit that is allowed consists of elementary steps. -/
theorem Edit.steps_apply {registry : Registry} {rules : EditRules} {edit : Edit} {stamp : Stamp}
    {tree changed : Tree} {result : EditResult}
    (allowed : (Change.edit edit).Allowed registry rules tree)
    (done : edit.apply registry stamp tree = .ok (result, changed)) :
    Steps registry rules tree changed := by
  cases edit with
  | newNode kind fresh =>
      obtain ⟨_, registered, -, rfl⟩ := newNode_eq_ok.mp done
      exact .single (.created registered allowed rfl rfl)
  | addNode node => exact allowed.elim
  | duplicateNode source fresh =>
      obtain ⟨_, _, found, registered, _, rfl, -, rfl⟩ := duplicateNode_eq_ok.mp done
      exact .single (.copied (mem_of_node? found).1 registered allowed rfl rfl)
  | removeNode node =>
      obtain ⟨_, -, -, rfl⟩ := removeNode_eq_ok.mp done
      exact .single (.removed node rfl rfl)
  | link new =>
      obtain ⟨-, linked⟩ := link_eq_ok.mp done
      exact .single (step_link linked)
  | unlink node socket =>
      obtain ⟨-, rfl⟩ := unlink_eq_ok.mp done
      exact .single (step_unlink node socket)
  | prune =>
      obtain ⟨-, rfl⟩ := prune_eq_ok.mp done
      exact .single step_prune
  | setProperty node property value =>
      obtain ⟨_, _, found, registered, -, rfl⟩ := setProperty_eq_ok.mp done
      rw [nodes_updateNode found]
      exact .single (.settled (node?_identifier found) (.propertySet registered property value)
        rfl rfl)
  | editNode node =>
      obtain ⟨_, _, found, registered, -, rfl⟩ := editNode_eq_ok.mp done
      rw [nodes_updateNode found]
      exact .single (.settled (node?_identifier found) (.edited registered) rfl rfl)
  | removeSocket node socket side =>
      obtain ⟨_, _, _, found, registered, -, -, rfl⟩ := removeSocket_eq_ok.mp done
      rw [nodes_updateNode found]
      exact .single (.settled (node?_identifier found) (.socketRemoved registered side socket)
        rfl rfl)
  | moveSocket node socket side index =>
      obtain ⟨target, kind, _, found, registered, inside, -, rfl⟩ := moveSocket_eq_ok.mp done
      rw [nodes_updateNode found]
      exact .single (.moved (node?_identifier found) registered
        (allowed target kind found registered) (Node.perm_move inside index) rfl rfl)
  | absorbParameters node =>
      obtain ⟨_, _, -, -, absorbed⟩ := absorbParameters_eq_ok.mp done
      exact steps_absorbInto absorbed

namespace Tree

variable {registry : Registry} {rules : EditRules} {tree changed : Tree}

theorem steps_change {change : Change} (allowed : change.Allowed registry rules tree)
    (stamp : Stamp) : Steps registry rules tree (change.apply registry stamp tree) := by
  cases change with
  | edit edit =>
      cases done : edit.apply registry stamp tree with
      | error error =>
          simp only [Change.apply, done]
          exact .refl
      | ok outcome =>
          obtain ⟨result, changed⟩ := outcome
          simp only [Change.apply, done]
          exact edit.steps_apply allowed done
  | newParameter node type name value =>
      cases found : tree.node? node with
      | none =>
          have same : updateFirst (·.identifier = node)
              (Catalog.GroupInput.addParameter · type name value) tree.nodes = tree.nodes :=
            updateFirst_of_none found
          rw [Change.apply, updateNode, same]
      | some target =>
          rw [Change.apply, nodes_updateNode found]
          exact .single (.extended (node?_identifier found) type name value rfl rfl)

theorem Steps.keeps {P : Tree → Prop}
    (keeps : ∀ ⦃tree changed⦄, P tree → Step registry rules tree changed → P changed)
    (steps : Steps registry rules tree changed) (start : P tree) : P changed := by
  induction steps with
  | refl => exact start
  | tail _ step kept => exact keeps kept step

/-- What holds of empty trees and is kept by every step holds of every tree reached. -/
theorem Reachable.keeps {P : Tree → Prop} (empty : ∀ name stamp, P (Tree.new name stamp))
    (keeps : ∀ ⦃tree changed⦄, P tree → Step registry rules tree changed → P changed)
    (reached : Reachable registry rules tree) : P tree := by
  induction reached with
  | new name stamp => exact empty name stamp
  | change _ change stamp allowed ih => exact (steps_change allowed stamp).keeps keeps ih

theorem Change.allowed_any {change : Change} (made : ∀ node, change ≠ .edit (.addNode node)) :
    change.Allowed registry .any tree := by
  cases change with
  | newParameter node type name value => trivial
  | edit edit =>
      cases edit with
      | addNode node => exact absurd rfl (made node)
      | moveSocket node socket side index => exact fun _ _ _ _ => trivial
      | _ => trivial

theorem Reachable.foldl (reached : Reachable registry .any tree) (stamp : Stamp)
    {changes : List Change} (made : ∀ change ∈ changes, ∀ node, change ≠ .edit (.addNode node)) :
    Reachable registry .any
      (changes.foldl (fun tree change => change.apply registry stamp tree) tree) := by
  induction changes generalizing tree with
  | nil => exact reached
  | cons first rest ih =>
      have allowed : first.Allowed registry .any tree :=
        Change.allowed_any (made first List.mem_cons_self)
      exact ih (reached.change first stamp allowed) fun change member =>
        made change (List.mem_cons_of_mem _ member)

theorem step_forall_nodes {P : Node → Prop} (keeps : registry.Keeps P)
    (all : ∀ node ∈ tree.nodes, P node) (step : Step registry rules tree changed) :
    ∀ node ∈ changed.nodes, P node := by
  have appended {added : Node} (kept : P added) (nodes : changed.nodes = tree.nodes ++ [added]) :
      ∀ node ∈ changed.nodes, P node := by
    intro node member
    rw [nodes, List.mem_append, List.mem_singleton] at member
    rcases member with member | rfl
    · exact all node member
    · exact kept
  have replaced {identifier : String} {after : Node} (kept : P after)
      (nodes : changed.nodes = (tree.updateNode identifier fun _ => after).nodes) :
      ∀ node ∈ changed.nodes, P node := by
    intro node member
    rw [nodes] at member
    rcases mem_or_eq_of_mem_updateFirst member with member | rfl
    · exact all node member
    · exact kept
  cases step with
  | created found free nodes links => exact appended (keeps.created found _) nodes
  | copied member found free nodes links =>
      exact appended (keeps.copied found (all _ member) _) nodes
  | removed identifier nodes links =>
      exact fun node member => all node (List.mem_of_mem_eraseP (nodes ▸ member))
  | linked output input nodes links => exact nodes ▸ all
  | dropped nodes links => exact nodes ▸ all
  | settled found adapted nodes links =>
      have kept := all _ (mem_of_node? found).1
      cases adapted with
      | propertySet registered property value =>
          exact replaced (keeps.propertySet registered kept property value) nodes
      | edited registered => exact replaced (keeps.edited registered kept) nodes
      | socketRemoved registered side socket =>
          exact replaced
            (keeps.socketsChanged registered kept side List.eraseP_sublist.subperm) nodes
  | moved found registered allowed perm nodes links =>
      have kept := all _ (mem_of_node? found).1
      exact replaced (keeps.socketsChanged registered kept _ perm.subperm) nodes
  | extended found type name value nodes links =>
      exact replaced (keeps.parameterAdded (all _ (mem_of_node? found).1) type name value) nodes

end Tree

end FrameGraph
