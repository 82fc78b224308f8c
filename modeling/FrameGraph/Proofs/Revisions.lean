import FrameGraph.Edit
import FrameGraph.Proofs.Outcomes

/-!
Revisions of edited trees. Main statement: an edit leaves a tree as it is or gives it the revision
of the stamp.
-/

namespace FrameGraph

namespace Tree

/-- Whether a tree is still the same or carries the revision of the stamp. -/
def KeptOrStamped (tree : Tree) (stamp : Stamp) (changed : Tree) : Prop :=
  changed = tree ∨ changed.revision = stamp.revision

variable {tree changed : Tree} {stamp : Stamp}

theorem KeptOrStamped.trans {middle : Tree} (first : tree.KeptOrStamped stamp middle)
    (second : middle.KeptOrStamped stamp changed) : tree.KeptOrStamped stamp changed := by
  rcases second with rfl | stamped
  · exact first
  · exact .inr stamped

theorem unlink_keptOrStamped (node socket : String) :
    tree.KeptOrStamped stamp (tree.unlink node socket stamp).2 := by
  unfold unlink
  split
  · exact .inr rfl
  · exact .inl rfl

theorem prune_keptOrStamped : tree.KeptOrStamped stamp (tree.prune stamp).2 := by
  unfold prune
  simp only
  split
  · exact .inl rfl
  · exact .inr rfl

end Tree

/-- Absorbing goes through links and unlinks, of which the last decides. -/
theorem Catalog.GroupInput.absorbInto_keptOrStamped {node : String} {stamp : Stamp}
    {targets : List (String × String)} {tree changed : Tree} {count : Nat}
    (done : absorbInto node stamp targets tree = .ok (count, changed)) :
    tree.KeptOrStamped stamp changed := by
  induction targets generalizing tree count with
  | nil =>
      simp only [absorbInto, Except.ok.injEq, Prod.mk.injEq] at done
      exact .inl done.2.symm
  | cons target rest ih =>
      obtain ⟨toNode, toSocket⟩ := target
      simp only [absorbInto] at done
      split at done
      · exact (Tree.unlink_keptOrStamped toNode toSocket).trans (ih done)
      · simp only [bind_eq_ok, pure_eq_ok, Prod.mk.injEq] at done
        obtain ⟨group, -, linked, link, ⟨_, last⟩, absorbed, -, rfl⟩ := done
        obtain ⟨_, _, -, -, -, -, rfl⟩ := Tree.link_eq_ok.mp link
        have stamped := ih absorbed
        rcases stamped with rfl | stamped
        · exact .inr rfl
        · exact .inr stamped

theorem Edit.apply_keptOrStamped {edit : Edit} {registry : Registry} {stamp : Stamp}
    {tree changed : Tree} {result : EditResult}
    (done : edit.apply registry stamp tree = .ok (result, changed)) :
    tree.KeptOrStamped stamp changed := by
  cases edit with
  | newNode kind fresh =>
      obtain ⟨_, -, -, rfl⟩ := newNode_eq_ok.mp done
      exact .inr rfl
  | addNode node =>
      obtain ⟨-, rfl⟩ := addNode_eq_ok.mp done
      exact .inr rfl
  | duplicateNode source fresh =>
      obtain ⟨_, _, -, -, _, -, -, rfl⟩ := duplicateNode_eq_ok.mp done
      exact .inr rfl
  | removeNode node =>
      obtain ⟨_, -, -, rfl⟩ := removeNode_eq_ok.mp done
      exact .inr rfl
  | link new =>
      obtain ⟨_, _, -, -, -, -, rfl⟩ := Tree.link_eq_ok.mp (link_eq_ok.mp done).2
      exact .inr rfl
  | unlink node socket =>
      obtain ⟨-, rfl⟩ := unlink_eq_ok.mp done
      exact Tree.unlink_keptOrStamped node socket
  | prune =>
      obtain ⟨-, rfl⟩ := prune_eq_ok.mp done
      exact Tree.prune_keptOrStamped
  | setProperty node property value =>
      obtain ⟨_, _, -, -, -, rfl⟩ := setProperty_eq_ok.mp done
      exact .inr rfl
  | editNode node =>
      obtain ⟨_, _, -, -, -, rfl⟩ := editNode_eq_ok.mp done
      exact .inr rfl
  | removeSocket node socket side =>
      obtain ⟨_, _, _, -, -, -, -, rfl⟩ := removeSocket_eq_ok.mp done
      exact .inr rfl
  | moveSocket node socket side index =>
      obtain ⟨_, _, _, -, -, -, -, rfl⟩ := moveSocket_eq_ok.mp done
      exact .inr rfl
  | absorbParameters node =>
      obtain ⟨_, _, -, -, absorbed⟩ := absorbParameters_eq_ok.mp done
      exact Catalog.GroupInput.absorbInto_keptOrStamped absorbed

end FrameGraph
