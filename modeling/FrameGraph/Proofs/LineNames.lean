import FrameGraph.Proofs.LiteralModules
import FrameGraph.Proofs.NodeLines

/-!
The host modules that the lines of a node name, where variables start with an underscore. Main
statement: the literal of an unlinked input asks for them, or the code of the node names them.
-/

namespace FrameGraph

open Lexeme

structure Underscored (s : String) : Prop where
  identifier : IsIdentifier s
  head : s.toList.head? = some '_'

namespace Variables

theorem isIdentifierPart_of_isNameChar {c : Char} (part : isNameChar c = true) :
    isIdentifierPart c = true := by
  rw [isNameChar, Bool.or_eq_true] at part
  rcases part with letter | underscore
  · exact isIdentifierPart_of_isAlphanum letter
  · rw [isIdentifierPart, underscore, Bool.true_or]

theorem extends_underscored : Extends Underscored := by
  intro s t ⟨identifier, head⟩ each
  refine ⟨identifier.append fun c member => isIdentifierPart_of_isNameChar (each c member), ?_⟩
  rw [String.toList_append, List.head?_append, head, Option.some_or]

theorem underscored_sanitize {name : String} (head : name.toList.head? = some '_') :
    Underscored (sanitize name) := by
  obtain ⟨rest, cs⟩ := List.head?_eq_some_iff.mp head
  have whole : (sanitize name).toList =
      '_' :: rest.map fun c => if isNameChar c then c else '_' := by
    rw [sanitize, String.toList_ofList, cs, List.map_cons]
    rfl
  have part : ∀ c ∈ (sanitize name).toList, isIdentifierPart c = true :=
    fun _ member => isIdentifierPart_of_isNameChar (isNameChar_of_mem_sanitize member)
  rw [whole, List.forall_mem_cons] at part
  exact ⟨⟨'_', _, whole, by decide, part.2⟩, by rw [whole, List.head?_cons]⟩

end Variables

theorem Underscored.not_mem_names {s module : String} (underscored : Underscored s)
    (host : module ∈ hostModules) : module ∉ names s := by
  have apart : ∀ module ∈ hostModules, module.toList.head? ≠ some '_' := by decide
  rw [names_of_isIdentifier underscored.identifier, List.mem_singleton]
  rintro rfl
  exact apart module host underscored.head

namespace Tree

def Marked (tree : Tree) : Prop :=
  ∀ node ∈ tree.nodes, node.identifier.toList.head? = some '_'

variable {tree : Tree} {registry : Registry} {node : Node} {module : String}

theorem Marked.underscored_nodeVariable (marked : tree.Marked) (member : node ∈ tree.nodes) :
    Underscored (tree.nodeVariable node.identifier) :=
  Variables.extends_underscored.node?
    (fun node inside => Variables.underscored_sanitize (marked node inside))
    (node?_nodeVariable member)

theorem Marked.underscored_output? (marked : tree.Marked) {identifier socket name : String}
    (found : (Variables.ofTree tree).output? identifier socket = some name) : Underscored name :=
  Variables.extends_underscored.output?
    (fun node inside => Variables.underscored_sanitize (marked node inside)) found

/-- An input stands for a variable, or for its own literal if no link enters it. -/
theorem WellFormed.inputValue_cases (wellFormed : tree.WellFormed registry) (marked : tree.Marked)
    (node : Node) (socket : Socket) :
    Underscored (tree.inputValue node socket) ∨
      (tree.inputLink? node.identifier socket.identifier = none ∧
        tree.inputValue node socket = socket.literal.1) := by
  unfold inputValue
  cases linked : tree.inputLink? node.identifier socket.identifier with
  | none => exact .inr ⟨rfl, rfl⟩
  | some link =>
      exact .inl (marked.underscored_output?
        (wellFormed.output?_source (List.mem_of_find?_eq_some linked)))

theorem WellFormed.closed_inputValue (wellFormed : tree.WellFormed registry)
    (marked : tree.Marked) (node : Node) (socket : Socket) :
    Closed (tree.inputValue node socket) := by
  rcases wellFormed.inputValue_cases marked node socket with name | ⟨-, literal⟩
  · exact name.identifier.closed
  · exact literal ▸ socket.closed_literal

theorem WellFormed.asked_of_mem_names (wellFormed : tree.WellFormed registry)
    (marked : tree.Marked) (host : module ∈ hostModules) {socket : Socket}
    (named : module ∈ names (tree.inputValue node socket)) :
    tree.inputLink? node.identifier socket.identifier = none ∧
      socket.literal.2 = some module := by
  rcases wellFormed.inputValue_cases marked node socket with name | ⟨unlinked, literal⟩
  · exact absurd named (name.not_mem_names host)
  · exact ⟨unlinked, socket.namesOnly_literal module host (literal ▸ named)⟩

def targets (tree : Tree) (node : Node) : List String :=
  node.outputs.map fun socket => tree.outputVariable node.identifier socket.identifier

def call (tree : Tree) (node : Node) : String :=
  tree.nodeVariable node.identifier ++ ".execute" ++ "(" ++
    ", ".intercalate (node.inputs.map (tree.inputValue node)) ++ ")"

theorem callLine_cases (tree : Tree) (node : Node) :
    tree.callLine node = tree.call node ∨
      tree.callLine node = ", ".intercalate (tree.targets node) ++ " = " ++ tree.call node := by
  have opens : ".execute(" = ".execute" ++ "(" := rfl
  rw [callLine, opens]
  split
  · exact .inl (by simp only [call, String.append_assoc, String.empty_append])
  · exact .inr (by simp only [call, targets, String.append_assoc])

theorem Marked.underscored_targets (marked : tree.Marked) (member : node ∈ tree.nodes) :
    ∀ target ∈ tree.targets node, Underscored target :=
  List.forall_mem_map.mpr fun _ inside =>
    marked.underscored_output? (output?_outputVariable member inside)

theorem WellFormed.exists_input_of_mem_call (wellFormed : tree.WellFormed registry)
    (marked : tree.Marked) (member : node ∈ tree.nodes) (host : module ∈ hostModules)
    (named : module ∈ names (tree.call node)) :
    ∃ socket ∈ node.inputs, module ∈ names (tree.inputValue node socket) := by
  have own := marked.underscored_nodeVariable member
  have execute : Closed ".execute" := by decide
  have function : module ∉ names (tree.nodeVariable node.identifier ++ ".execute") := by
    intro named
    have parts := names_append_subset own.identifier.closed (fun d head => ?_) named
    · rcases List.mem_append.mp parts with named | named
      · exact own.not_mem_names host named
      · exact not_mem_names_of_unwritten host (by decide) named
    · obtain rfl : '.' = d := Option.some.inj head
      decide
  have inputs : ∀ part ∈ node.inputs.map (tree.inputValue node), Closed part :=
    List.forall_mem_map.mpr fun socket _ => wellFormed.closed_inputValue marked node socket
  have parts := names_call_subset (own.identifier.closed.append execute) inputs named
  have argument := (List.mem_append.mp parts).resolve_left function
  obtain ⟨part, inside, named⟩ := List.mem_flatMap.mp argument
  obtain ⟨socket, declared, rfl⟩ := List.mem_map.mp inside
  exact ⟨socket, declared, named⟩

theorem WellFormed.exists_input_of_mem_callLine (wellFormed : tree.WellFormed registry)
    (marked : tree.Marked) (member : node ∈ tree.nodes) (host : module ∈ hostModules)
    (named : module ∈ names (tree.callLine node)) :
    ∃ socket ∈ node.inputs, module ∈ names (tree.inputValue node socket) := by
  rcases tree.callLine_cases node with whole | whole
  · exact wellFormed.exists_input_of_mem_call marked member host (whole ▸ named)
  · have underscored := marked.underscored_targets member
    have closed : ∀ target ∈ tree.targets node, Closed target :=
      fun target inside => (underscored target inside).identifier.closed
    have comma : Closed ", " := by decide
    rw [whole] at named
    have parts := names_assignment_subset (closed_intercalate comma closed) _ named
    rcases List.mem_append.mp parts with named | named
    · obtain ⟨target, inside, named⟩ :=
        List.mem_flatMap.mp (names_intercalate_subset closed named)
      exact absurd named ((underscored target inside).not_mem_names host)
    · exact wellFormed.exists_input_of_mem_call marked member host named

/-! Inline code. -/

/-- A name gives way to an input or to a variable, or it stays. -/
theorem Marked.replacement_cases (marked : tree.Marked) (member : node ∈ tree.nodes)
    (name : String) :
    (∃ socket, node.input? name = some socket ∧
      tree.replacement node name = tree.inputValue node socket) ∨
    Underscored (tree.replacement node name) ∨ tree.replacement node name = name := by
  rcases tree.tokenOf_cases node name with ⟨socket, found, -, value⟩ |
    ⟨socket, inside, -, value⟩ | ⟨-, value⟩ | ⟨-, value⟩
  · exact .inl ⟨socket, found, value⟩
  · exact .inr (.inl (value ▸ marked.underscored_output? (output?_outputVariable member inside)))
  · exact .inr (.inl (value ▸ marked.underscored_nodeVariable member))
  · exact .inr (.inr value)

/-- A line of inline code, its names replaced, names a module of its own or one that an unlinked
input asks for. -/
theorem WellFormed.asked_of_mem_rewrite (wellFormed : tree.WellFormed registry)
    (marked : tree.Marked) (member : node ∈ tree.nodes) (host : module ∈ hostModules)
    {line : String} (named : module ∈ names (rewrite (tree.replacement node) line)) :
    module ∈ names line ∨ ∃ name ∈ names line, ∃ socket, node.input? name = some socket ∧
      tree.inputLink? node.identifier name = none ∧ socket.literal.2 = some module := by
  have closed : ∀ name ∈ names line, Closed (tree.replacement node name) := by
    intro name inside
    rcases marked.replacement_cases member name with ⟨socket, -, value⟩ | underscored | same
    · exact value ▸ wellFormed.closed_inputValue marked node socket
    · exact underscored.identifier.closed
    · rw [same]
      exact (isIdentifier_of_mem_names inside).closed
  obtain ⟨name, inside, named⟩ := List.mem_flatMap.mp (names_rewrite_subset closed named)
  rcases marked.replacement_cases member name with ⟨socket, found, value⟩ |
    underscored | same
  · have identified : socket.identifier = name := by simpa using List.find?_some found
    obtain ⟨unlinked, asked⟩ := wellFormed.asked_of_mem_names marked host (value ▸ named)
    exact .inr ⟨name, inside, socket, found, identified ▸ unlinked, asked⟩
  · exact absurd named (underscored.not_mem_names host)
  · rw [same, names_of_isIdentifier (isIdentifier_of_mem_names inside),
      List.mem_singleton] at named
    exact .inl (named ▸ inside)

end Tree

end FrameGraph
