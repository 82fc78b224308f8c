import FrameGraph.Proofs.FreeNames
import FrameGraph.Proofs.VariableNames
import Mathlib.Data.List.Nodup

/-!
No variable stands for two things. Main statement: every node and every output of a tree has a
variable, all variables are names, and different keys have different ones.
-/

namespace FrameGraph.Variables

inductive Key
  | node (identifier : String)
  | output (node socket : String)
deriving DecidableEq, Repr

def name? (names : Variables) : Key → Option String
  | .node identifier => names.node? identifier
  | .output node socket => names.output? node socket

def entries (names : Variables) : List (Key × String) :=
  names.nodes.map (fun entry => (.node entry.1, entry.2)) ++
    names.outputs.map fun entry => (.output entry.1.1 entry.1.2, entry.2)

theorem mem_entries_of_name? {names : Variables} {key : Key} {name : String}
    (found : names.name? key = some name) : (key, name) ∈ names.entries := by
  rw [entries, List.mem_append, List.mem_map, List.mem_map]
  cases key with
  | node identifier => exact .inl ⟨_, mem_of_lookup_reverse found, rfl⟩
  | output node socket => exact .inr ⟨_, mem_of_lookup_reverse found, rfl⟩

theorem perm_nameOutputs (node nodeName : String) (sockets : List Socket) (used : List String) :
    (nameOutputs node nodeName sockets used).2.Perm
      ((nameOutputs node nodeName sockets used).1.map (·.2) ++ used) := by
  induction sockets generalizing used with
  | nil => exact .refl _
  | cons socket sockets ih =>
      simp only [nameOutputs, List.map_cons, List.cons_append]
      exact (ih _).trans List.perm_middle

theorem nodup_nameOutputs (node nodeName : String) (sockets : List Socket) {used : List String}
    (distinct : used.Nodup) : (nameOutputs node nodeName sockets used).2.Nodup := by
  induction sockets generalizing used with
  | nil => exact distinct
  | cons socket sockets ih => exact ih (distinct.cons (freeName_not_mem used _))

/-- No name that is given was in use before, and none is given twice. -/
theorem nodup_entries_nameNodes (nodes : List Node) {used : List String} (distinct : used.Nodup) :
    ((nameNodes nodes used).entries.map (·.2) ++ used).Nodup := by
  induction nodes generalizing used with
  | nil => exact distinct
  | cons node nodes ih =>
      let name := freeName used (sanitize node.identifier)
      have own : (name :: used).Nodup := distinct.cons (freeName_not_mem used _)
      have outputs := perm_nameOutputs node.identifier name node.outputs (name :: used)
      have rest := ih (nodup_nameOutputs node.identifier name node.outputs own)
      refine ((outputs.append_left _).trans ?_).nodup_iff.mp rest
      rw [List.perm_iff_count]
      intro other
      simp only [entries, nameNodes, List.map_cons, List.map_append, List.map_map,
        Function.comp_def, List.count_append, List.count_cons, name]
      omega

theorem key_eq_of_name? {tree : Tree} {key other : Key} {name : String}
    (found : (ofTree tree).name? key = some name)
    (foundOther : (ofTree tree).name? other = some name) : key = other := by
  have distinct : ((ofTree tree).entries.map (·.2)).Nodup :=
    (List.nodup_append.mp (nodup_entries_nameNodes tree.nodes .nil)).1
  have same := List.inj_on_of_nodup_map distinct (mem_entries_of_name? found)
    (mem_entries_of_name? foundOther) rfl
  exact (Prod.ext_iff.mp same).1

/-- Naming a tree ends: the search for a free name does, at the first candidate that is not in use.
Every node and every output gets a variable, each variable is a name, and no two keys share one. -/
theorem ofTree_injective (tree : Tree) :
    (∀ used name, ∃ n ≤ used.length + 1, freeName used name = candidate name n ∧
      candidate name n ∉ used ∧ ∀ m < n, candidate name m ∈ used) ∧
    (∀ node ∈ tree.nodes,
      (∃ name, (ofTree tree).name? (.node node.identifier) = some name) ∧
      ∀ socket ∈ node.outputs,
        ∃ name, (ofTree tree).name? (.output node.identifier socket.identifier) = some name) ∧
    (∀ key name, (ofTree tree).name? key = some name → IsName name) ∧
    ∀ key other name, (ofTree tree).name? key = some name →
      (ofTree tree).name? other = some name → key = other := by
  refine ⟨freeName_spec, ?_, ?_, fun _ _ _ => key_eq_of_name?⟩
  · intro node member
    exact ⟨exists_node? member, fun socket inside => exists_output? member inside⟩
  · intro key name found
    cases key with
    | node identifier => exact isName_of_node? found
    | output node socket => exact isName_of_output? found

end FrameGraph.Variables
