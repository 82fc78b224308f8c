import FrameGraph.Tree

/-!
The variables of nodes and outputs in the generated code. Main statement: every text becomes a name
of ASCII letters, digits and underscores that does not start with a digit.
-/

namespace FrameGraph

/-- The variables of nodes, and of outputs under node and socket, in the order in which they were
given. -/
structure Variables where
  nodes : List (String × String)
  outputs : List ((String × String) × String)
deriving DecidableEq, Repr

namespace Variables

def isNameChar (c : Char) : Bool :=
  c.isAlphanum || c == '_'

/-- Every character that cannot stand in a name becomes an underscore; an underscore is put before
a digit or if there is nothing else. -/
def sanitize (name : String) : String :=
  let cs := name.toList.map fun c => if isNameChar c then c else '_'
  String.ofList (if (cs.head?.map Char.isDigit).getD true then '_' :: cs else cs)

/-- The first of `name_n`, `name_(n+1)`, … that is not in use. -/
def freeNumbered (used : List String) (name : String) : Nat → Nat → String
  | 0, n => name ++ "_" ++ toString n
  | fuel + 1, n =>
    let candidate := name ++ "_" ++ toString n
    if candidate ∈ used then freeNumbered used name fuel (n + 1) else candidate

/-- The name itself if it is not in use, else the first free numbered one. There are more candidates
than names in use. -/
def freeName (used : List String) (name : String) : String :=
  if name ∈ used then freeNumbered used name used.length 1 else name

def nameOutputs (node nodeName : String) :
    List Socket → List String → List ((String × String) × String) × List String
  | [], used => ([], used)
  | socket :: rest, used =>
    let name := freeName used (nodeName ++ "_" ++ sanitize socket.identifier)
    let (outputs, used) := nameOutputs node nodeName rest (name :: used)
    (((node, socket.identifier), name) :: outputs, used)

def nameNodes : List Node → List String → Variables
  | [], _ => ⟨[], []⟩
  | node :: rest, used =>
    let name := freeName used (sanitize node.identifier)
    let (outputs, used) := nameOutputs node.identifier name node.outputs (name :: used)
    let others := nameNodes rest used
    ⟨(node.identifier, name) :: others.nodes, outputs ++ others.outputs⟩

def ofTree (tree : Tree) : Variables :=
  nameNodes tree.nodes []

/-- The variable of a node, the last given under its identifier. -/
def node? (names : Variables) (node : String) : Option String :=
  names.nodes.reverse.lookup node

def output? (names : Variables) (node socket : String) : Option String :=
  names.outputs.reverse.lookup (node, socket)

theorem isNameChar_of_mem_sanitize {name : String} {c : Char} (h : c ∈ (sanitize name).toList) :
    isNameChar c := by
  have hmap : ∀ c ∈ name.toList.map fun c => if isNameChar c then c else '_', isNameChar c := by
    intro c hc
    obtain ⟨d, _, rfl⟩ := List.mem_map.mp hc
    split
    · assumption
    · decide
  unfold sanitize at h
  simp only [String.toList_ofList] at h
  split at h
  · rcases List.mem_cons.mp h with rfl | h
    · decide
    · exact hmap c h
  · exact hmap c h

theorem head?_sanitize (name : String) :
    (sanitize name).toList.head?.map Char.isDigit = some false := by
  unfold sanitize
  simp only [String.toList_ofList]
  split
  · rfl
  · rename_i h
    cases hc : (List.map (fun c => if isNameChar c then c else '_') name.toList).head? with
    | none => simp [hc] at h
    | some c => simpa [hc] using h

end Variables

end FrameGraph
