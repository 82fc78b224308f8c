import FrameGraph.Proofs.Revisions
import FrameGraph.Session
import Mathlib.Data.List.Perm.Subperm

/-!
The trees of a session between its frames. Main statement: an action that runs nothing leaves the
trees as they are, in some order, but for at most one, which carries the revision that was next.
-/

namespace FrameGraph

theorem perm_updateFirst {α : Type} {test : α → Bool} (change : α → α) {items : List α} {a : α}
    (found : items.find? test = some a) :
    ∃ rest, items.Perm (a :: rest) ∧ (updateFirst test change items).Perm (change a :: rest) := by
  induction items with
  | nil => contradiction
  | cons first rest ih =>
      by_cases hit : test first
      · obtain rfl : first = a := by simpa [hit] using found
        exact ⟨rest, .refl _, by simp [updateFirst, hit]⟩
      · obtain ⟨others, same, updated⟩ := ih (by simpa [hit] using found)
        refine ⟨first :: others, (same.cons first).trans (.swap _ _ _), ?_⟩
        simpa [updateFirst, hit] using (updated.cons first).trans (.swap _ _ _)

/-- Trees with the next revision before and after an action that runs nothing. -/
inductive TreesMoved (limit : Nat) (trees : List Tree) : Nat → List Tree → Prop
  | same {next : List Tree} : next.Perm trees → TreesMoved limit trees limit next
  | counted {next : List Tree} : next.Perm trees → TreesMoved limit trees (limit + 1) next
  | stamped {tree : Tree} {kept next : List Tree} : tree.revision = limit → kept.Subperm trees →
      next.Perm (tree :: kept) → TreesMoved limit trees (limit + 1) next

namespace Session

variable {ρ σ : Type}

/-- The runner is left alone, and so are the trees but for at most one. -/
structure Moved (session next : Session ρ σ) : Prop where
  runner : next.runner = session.runner
  trees : TreesMoved session.revision session.trees next.revision next.trees

theorem moved_self (session : Session ρ σ) : session.Moved session :=
  ⟨rfl, .same (.refl _)⟩

theorem moved_edit (session : Session ρ σ) (registry : Registry) (name : String) (edit : Edit) :
    session.Moved (session.edit registry name edit) := by
  unfold Session.edit
  cases found : session.document.tree? name with
  | none => exact session.moved_self
  | some tree =>
      simp only
      cases done : edit.apply registry session.stamp tree with
      | error error => exact session.moved_self
      | ok outcome =>
          obtain ⟨result, changed⟩ := outcome
          obtain ⟨rest, before, after⟩ := perm_updateFirst (fun _ => changed) found
          have old : session.trees.Perm (tree :: (rest ++ session.outside)) :=
            before.append_right session.outside
          refine ⟨rfl, ?_⟩
          rcases Edit.apply_keptOrStamped done with rfl | stamped
          · exact .counted ((after.append_right session.outside).trans old.symm)
          · exact .stamped stamped ((List.sublist_cons_self _ _).subperm.trans old.symm.subperm)
              (after.append_right session.outside)

theorem moved_makeTree (session : Session ρ σ) (tree : Tree) :
    session.Moved (session.makeTree tree) :=
  ⟨rfl, .stamped rfl (.refl _) List.perm_middle⟩

theorem moved_addTree (session : Session ρ σ) (position : Nat) :
    session.Moved (session.addTree position) := by
  unfold Session.addTree
  cases found : session.outside[position]? with
  | none => exact session.moved_self
  | some tree =>
      obtain ⟨inside, rfl⟩ := List.getElem?_eq_some_iff.mp found
      refine ⟨rfl, .same ?_⟩
      simp only [trees, Document.addTree, List.append_assoc, List.singleton_append]
      exact (List.getElem_cons_eraseIdx_perm inside).append_left _

theorem moved_removeTree (session : Session ρ σ) (name : String) :
    session.Moved (session.removeTree name) := by
  have parted := List.filter_append_perm (fun tree : Tree => decide (tree.name ≠ name))
    session.document.trees
  refine ⟨rfl, .same ?_⟩
  simp only [trees, Session.removeTree]
  rw [← List.append_assoc]
  refine List.Perm.append_right _ (.trans ?_ parted)
  simp

end Session

end FrameGraph
