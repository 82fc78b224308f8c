import FrameGraph.Variables
import FrameGraph.Proofs.TextLines

/-!
The names given to nodes and outputs. Main statements: every node and every output of a tree has a
variable, and every variable is a name.
-/

namespace FrameGraph.Variables

def IsName (s : String) : Prop :=
  ∃ first rest, s.toList = first :: rest ∧ first.isDigit = false ∧
    ∀ c ∈ first :: rest, isNameChar c = true

theorem isName_ofList {c : Char} {cs : List Char} (letter : c.isDigit = false)
    (each : (c :: cs).all isNameChar = true) : IsName (String.ofList (c :: cs)) :=
  ⟨c, cs, String.toList_ofList, letter, List.all_eq_true.mp each⟩

theorem IsName.each {s : String} (name : IsName s) : ∀ c ∈ s.toList, isNameChar c = true := by
  obtain ⟨first, rest, cs, -, each⟩ := name
  exact cs ▸ each

theorem IsName.isLine {s : String} (name : IsName s) : Text.IsLine s :=
  Text.isLine_of_forall isNameChar (by decide) name.each

theorem IsName.append {s t : String} (name : IsName s)
    (each : ∀ c ∈ t.toList, isNameChar c = true) : IsName (s ++ t) := by
  obtain ⟨first, rest, cs, letter, inside⟩ := name
  refine ⟨first, rest ++ t.toList, ?_, letter, ?_⟩
  · rw [String.toList_append, cs, List.cons_append]
  · intro c member
    rw [← List.cons_append, List.mem_append] at member
    exact member.elim (inside c) (each c)

theorem isName_sanitize (name : String) : IsName (sanitize name) := by
  cases cs : (sanitize name).toList with
  | nil =>
      have head := head?_sanitize name
      simp [cs] at head
  | cons first rest =>
      have head := head?_sanitize name
      have each : ∀ c ∈ (sanitize name).toList, isNameChar c = true :=
        fun _ member => isNameChar_of_mem_sanitize member
      exact ⟨first, rest, cs, by simpa [cs] using head, cs ▸ each⟩

theorem isNameChar_of_mem_number {n : Nat} {c : Char} (member : c ∈ (toString n).toList) :
    isNameChar c = true := by
  rw [Nat.toString_eq_repr, Nat.toList_repr] at member
  have digit := Nat.isDigit_of_mem_toDigits (by decide) (by decide) member
  simp [isNameChar, Char.isAlphanum, digit]

theorem isNameChar_of_mem_underscore {c : Char} (member : c ∈ "_".toList) :
    isNameChar c = true := by
  obtain rfl : c = '_' := by simpa using member
  rfl

/-- Whether a property of texts stays when characters of names are appended. -/
def Extends (P : String → Prop) : Prop :=
  ∀ s t, P s → (∀ c ∈ t.toList, isNameChar c = true) → P (s ++ t)

theorem extends_isName : Extends IsName :=
  fun _ _ isName each => isName.append each

variable {P : String → Prop}

theorem Extends.number (keeps : Extends P) {name : String} (base : P name) (n : Nat) :
    P (name ++ "_" ++ toString n) := by
  have separated : P (name ++ "_") :=
    keeps _ _ base fun _ member => isNameChar_of_mem_underscore member
  exact keeps _ _ separated fun _ member => isNameChar_of_mem_number member

theorem Extends.freeNumbered (keeps : Extends P) {used : List String} {name : String}
    (base : P name) (fuel n : Nat) : P (freeNumbered used name fuel n) := by
  induction fuel generalizing n with
  | zero => exact keeps.number base n
  | succ fuel ih =>
      simp only [Variables.freeNumbered]
      split
      · exact ih (n + 1)
      · exact keeps.number base n

theorem Extends.freeName (keeps : Extends P) {used : List String} {name : String}
    (base : P name) : P (freeName used name) := by
  unfold Variables.freeName
  split
  · exact keeps.freeNumbered base _ _
  · exact base

/-! Keys and names of the sockets of one node, then of all nodes. -/

theorem nameOutputs_keys (node nodeName : String) (sockets : List Socket) (used : List String) :
    (nameOutputs node nodeName sockets used).1.map (·.1) =
      sockets.map fun socket => (node, socket.identifier) := by
  induction sockets generalizing used with
  | nil => rfl
  | cons socket sockets ih => simp [nameOutputs, ih]

theorem Extends.of_mem_nameOutputs (keeps : Extends P) {node nodeName : String}
    (base : P nodeName) {sockets : List Socket} {used : List String}
    {entry : (String × String) × String}
    (member : entry ∈ (nameOutputs node nodeName sockets used).1) : P entry.2 := by
  induction sockets generalizing used with
  | nil => simp [nameOutputs] at member
  | cons socket sockets ih =>
      simp only [nameOutputs, List.mem_cons] at member
      rcases member with rfl | member
      · have joined : P (nodeName ++ "_" ++ sanitize socket.identifier) := by
          have separated : P (nodeName ++ "_") :=
            keeps _ _ base fun _ inside => isNameChar_of_mem_underscore inside
          exact keeps _ _ separated fun _ inside => isNameChar_of_mem_sanitize inside
        exact keeps.freeName joined
      · exact ih member

theorem nameNodes_keys (nodes : List Node) (used : List String) :
    (nameNodes nodes used).nodes.map (·.1) = nodes.map (·.identifier) ∧
    (nameNodes nodes used).outputs.map (·.1) =
      nodes.flatMap fun node =>
        node.outputs.map fun socket => (node.identifier, socket.identifier) := by
  induction nodes generalizing used with
  | nil => exact ⟨rfl, rfl⟩
  | cons node nodes ih => simp [nameNodes, ih, nameOutputs_keys]

/-- Every variable extends the text that an identifier of a node becomes. -/
theorem Extends.of_mem_nameNodes (keeps : Extends P) {nodes : List Node}
    (base : ∀ node ∈ nodes, P (sanitize node.identifier)) {used : List String} :
    (∀ entry ∈ (nameNodes nodes used).nodes, P entry.2) ∧
    ∀ entry ∈ (nameNodes nodes used).outputs, P entry.2 := by
  induction nodes generalizing used with
  | nil => simp [nameNodes]
  | cons node nodes ih =>
      obtain ⟨head, tail⟩ := List.forall_mem_cons.mp base
      have own : P (Variables.freeName used (sanitize node.identifier)) := keeps.freeName head
      constructor
      · intro entry member
        simp only [nameNodes, List.mem_cons] at member
        rcases member with rfl | member
        · exact own
        · exact (ih tail).1 entry member
      · intro entry member
        simp only [nameNodes, List.mem_append] at member
        rcases member with member | member
        · exact keeps.of_mem_nameOutputs own member
        · exact (ih tail).2 entry member

section Lookup

variable {key : Type} [BEq key] [LawfulBEq key]

theorem exists_lookup_reverse {entries : List (key × String)} {k : key}
    (member : k ∈ entries.map (·.1)) : ∃ name, entries.reverse.lookup k = some name := by
  obtain ⟨entry, inside, rfl⟩ := List.mem_map.mp member
  apply Option.isSome_iff_exists.mp
  rw [List.lookup_isSome_iff]
  exact ⟨entry, List.mem_reverse.mpr inside, by simp⟩

theorem mem_of_lookup_reverse {entries : List (key × String)} {k : key} {name : String}
    (found : entries.reverse.lookup k = some name) : (k, name) ∈ entries := by
  obtain ⟨before, after, split, -⟩ := List.lookup_eq_some_iff.mp found
  have member : (k, name) ∈ entries.reverse := by simp [split]
  exact List.mem_reverse.mp member

end Lookup

variable {tree : Tree}

theorem exists_node? {node : Node} (member : node ∈ tree.nodes) :
    ∃ name, (ofTree tree).node? node.identifier = some name := by
  apply exists_lookup_reverse
  rw [ofTree, (nameNodes_keys tree.nodes []).1]
  exact List.mem_map_of_mem member

theorem exists_output? {node : Node} (member : node ∈ tree.nodes) {socket : Socket}
    (inside : socket ∈ node.outputs) :
    ∃ name, (ofTree tree).output? node.identifier socket.identifier = some name := by
  apply exists_lookup_reverse
  rw [ofTree, (nameNodes_keys tree.nodes []).2]
  exact List.mem_flatMap.mpr ⟨node, member, List.mem_map_of_mem inside⟩

theorem Extends.node? (keeps : Extends P)
    (base : ∀ node ∈ tree.nodes, P (sanitize node.identifier)) {identifier name : String}
    (found : (ofTree tree).node? identifier = some name) : P name :=
  (keeps.of_mem_nameNodes base).1 _ (mem_of_lookup_reverse found)

theorem Extends.output? (keeps : Extends P)
    (base : ∀ node ∈ tree.nodes, P (sanitize node.identifier)) {identifier socket name : String}
    (found : (ofTree tree).output? identifier socket = some name) : P name :=
  (keeps.of_mem_nameNodes base).2 _ (mem_of_lookup_reverse found)

theorem isName_of_node? {identifier name : String}
    (found : (ofTree tree).node? identifier = some name) : IsName name :=
  extends_isName.node? (fun _ _ => isName_sanitize _) found

theorem isName_of_output? {identifier socket name : String}
    (found : (ofTree tree).output? identifier socket = some name) : IsName name :=
  extends_isName.output? (fun _ _ => isName_sanitize _) found

end FrameGraph.Variables
