import FrameGraph.Proofs.CodeNames
import FrameGraph.Proofs.ProcedureLines

/-!
The modules of a procedure. Main statement: they are those that the kinds of the nodes declare, and
those that the literals of unlinked inputs ask for where the code of a node uses them, each once.
-/

namespace FrameGraph

namespace Imports

theorem nodup_eraseDups : (items : List String) → items.eraseDups.Nodup
  | [] => .nil
  | item :: items => by
      rw [List.eraseDups_cons, List.nodup_cons, List.mem_eraseDups]
      exact ⟨by simp, nodup_eraseDups _⟩
termination_by items => items.length
decreasing_by
  have shorter := List.length_filter_le (fun other => !other == item) items
  simp only [List.length_cons]
  omega

theorem mem_modules_iff {requested : List String} {module : String} :
    module ∈ modules requested ↔ module ≠ "" ∧ module ∈ requested := by
  rw [modules, List.mem_eraseDups, List.mem_filter, decide_eq_true_iff, and_comm]

end Imports

theorem RawCode.names_of_isEmpty {code : RawCode} (empty : code.isEmpty = true) :
    Lexeme.names code.joined = [] := by
  have blank : Lexeme.names "" = [] := Lexeme.names_of_plain (by simp)
  cases code with
  | empty => exact blank
  | single text =>
      obtain rfl : text = "" := by simpa [isEmpty] using empty
      exact blank
  | lines texts =>
      have each : ∀ text ∈ texts, text = "" := by simpa [isEmpty] using empty
      have closed : ∀ text ∈ texts, Lexeme.Closed text :=
        fun text member => each text member ▸ rfl
      rw [joined, ← List.perm_nil]
      refine (Lexeme.names_joinLines closed).trans (List.perm_nil.mpr ?_)
      rw [List.flatMap_eq_nil_iff]
      exact fun text member => each text member ▸ blank

/-- Whether code of a node uses an input: a procedure takes them all, inline code names it. -/
def Contribution.Uses (input : String) : Contribution → Prop
  | .procedure => True
  | .raw code => input ∈ Lexeme.names code.joined

namespace Tree

/-- Why a node needs a module: its kind declares it, or its code uses an input that no link enters,
and the literal of the input asks for the module. -/
inductive Requests (tree : Tree) (registry : Registry) (node : Node) (module : String) : Prop
  | declared {kind : Kind} (registered : registry.kind? node.kind = some kind)
      (used : module ∈ kind.usedModules node)
  | literal {kind : Kind} {name : String} {socket : Socket}
      (registered : registry.kind? node.kind = some kind)
      (uses : (kind.code node (.ofNode tree node)).Uses name)
      (input : node.input? name = some socket)
      (unlinked : tree.inputLink? node.identifier name = none)
      (asked : socket.literal.2 = some module)

variable {tree : Tree} {registry : Registry} {options : CompileOptions} {node : Node}
  {module name : String}

theorem tokenOf_eq_input_iff {text : String} :
    Assembly.tokenOf node text = .input name ↔ node.hasInput name = true ∧ text = name := by
  unfold Assembly.tokenOf
  split
  · rename_i input
    constructor
    · intro same
      obtain rfl := Token.input.inj same
      exact ⟨input, rfl⟩
    · rintro ⟨-, rfl⟩
      rfl
  · rename_i other
    have apart : ¬ (node.hasInput name = true ∧ text = name) := by
      rintro ⟨input, rfl⟩
      exact other input
    refine iff_of_false ?_ apart
    split
    · simp
    · split <;> simp

theorem input_mem_tokens_iff {code : String} :
    Token.input name ∈ Assembly.tokens node code ↔
      node.hasInput name = true ∧ name ∈ Lexeme.names code := by
  have nonempty : ∀ lexeme ∈ Lexeme.lex code, lexeme.text.toList ≠ [] :=
    fun _ => Lexeme.text_ne_nil_of_mem_lexChars
  have named : Token.input name ∈ Assembly.tokens node code ↔
      ∃ text ∈ Lexeme.names code, Assembly.tokenOf node text = .input name :=
    Lexeme.mem_mapNames_iff (fun _ => Token.noConfusion) nonempty []
  rw [named]
  simp only [tokenOf_eq_input_iff]
  constructor
  · rintro ⟨text, member, input, rfl⟩
    exact ⟨input, member⟩
  · rintro ⟨input, member⟩
    exact ⟨name, member, input, rfl⟩

theorem filter_commaSeparated (tokens : List Token) :
    (Assembly.commaSeparated tokens).filter (fun token => !token.isText) =
      tokens.filter fun token => !token.isText := by
  unfold Assembly.commaSeparated
  induction tokens with
  | nil => rfl
  | cons first rest ih =>
      cases rest with
      | nil => rfl
      | cons second rest =>
          have comma : (!(Token.text ", ").isText) = false := rfl
          rw [List.intersperse_cons_cons, List.filter_cons, List.filter_cons, ih, comma,
            if_neg Bool.false_ne_true, List.filter_cons (x := first)]

theorem references_procedureCall (node : Node) :
    (Assembly.procedureCall node).references =
      (node.outputs.map fun socket => .output socket.identifier) ++
        .self :: node.inputs.map fun socket => .input socket.identifier := by
  have equals : (if node.outputs.isEmpty then [] else [Token.text " = "]).filter
      (fun token => !token.isText) = [] := by
    split <;> rfl
  have outputs : ∀ token ∈ node.outputs.map fun socket => Token.output socket.identifier,
      (!token.isText) = true := by
    simp [Token.isText]
  have inputs : ∀ token ∈ node.inputs.map fun socket => Token.input socket.identifier,
      (!token.isText) = true := by
    simp [Token.isText]
  rw [Assembly.procedureCall, Fragment.references_ofTokens]
  simp only [List.filter_append, filter_commaSeparated, equals, List.filter_eq_self.mpr outputs,
    List.filter_eq_self.mpr inputs]
  simp [Token.isText]

/-- The inputs among the tokens of a node are those that its code uses. -/
theorem input_mem_assemble_iff {contribution : Contribution} :
    Token.input name ∈ (Assembly.assemble node contribution).flatMap (·.references) ↔
      node.hasInput name = true ∧ contribution.Uses name := by
  cases contribution with
  | procedure =>
      rw [Assembly.assemble, List.flatMap_singleton, references_procedureCall, Node.hasInput_iff]
      simp [Contribution.Uses]
  | raw code =>
      rw [Assembly.assemble, Assembly.rawLines]
      split
      · rename_i empty
        simp [Contribution.Uses, RawCode.names_of_isEmpty empty]
      · rw [Fragment.references_splitLines, Fragment.references_ofTokens, List.mem_filter,
          input_mem_tokens_iff]
        exact and_iff_left rfl

theorem WellFormed.inputText_module_iff (wellFormed : tree.WellFormed registry)
    (member : node ∈ tree.nodes) (names : Variables) :
    (Linking.inputText tree names node name).2 = some module ↔
      tree.inputLink? node.identifier name = none ∧
        ∃ socket, node.input? name = some socket ∧ socket.literal.2 = some module := by
  have single := wellFormed.single node.identifier name
  unfold Linking.inputText inputSource? inputLink?
  rw [find?_reverse_of_countP_le_one single]
  cases linked : tree.links.find? (·.entersInput node.identifier name) with
  | some link => simp
  | none =>
      rw [wellFormed.filter_identifier member]
      cases input : node.input? name with
      | none => simp [input]
      | some socket => simp [input]

theorem WellFormed.mem_modules_linkNode_iff (wellFormed : tree.WellFormed registry)
    (member : node ∈ tree.nodes) {compiled : CompiledNode}
    (done : Compile.compileNode tree registry node = .ok compiled) :
    module ∈ (Linking.linkNode tree (Variables.ofTree tree) options compiled.assembled).modules ↔
      tree.Requests registry node module := by
  obtain ⟨kind, registered⟩ := wellFormed.registered node member
  simp only [Compile.compileNode, registered, Except.ok.injEq] at done
  subst done
  rw [Linking.modules_linkNode, List.mem_append, List.mem_filterMap]
  constructor
  · rintro (used | ⟨token, inside, asked⟩)
    · exact .declared registered used
    · obtain ⟨name, rfl⟩ : ∃ name, token = .input name := by
        cases token with
        | input name => exact ⟨name, rfl⟩
        | text s | self | output name => cases asked
      obtain ⟨unlinked, socket, input, asked⟩ :=
        (wellFormed.inputText_module_iff member _).mp asked
      obtain ⟨line, written, inside⟩ := List.mem_flatMap.mp inside
      have reference := (Fragment.mem_references_iff rfl).mpr inside
      have uses := input_mem_assemble_iff.mp (List.mem_flatMap.mpr ⟨line, written, reference⟩)
      exact .literal registered uses.2 input unlinked asked
  · intro requests
    cases requests with
    | declared other used =>
        obtain rfl := Option.some.inj (registered.symm.trans other)
        exact .inl used
    | @literal _ name socket other uses input unlinked asked =>
        obtain rfl := Option.some.inj (registered.symm.trans other)
        have has : node.hasInput name = true := by
          rw [Node.hasInput_eq_isSome, input, Option.isSome_some]
        obtain ⟨line, written, reference⟩ :=
          List.mem_flatMap.mp (input_mem_assemble_iff.mpr ⟨has, uses⟩)
        have inside := (Fragment.mem_references_iff rfl).mp reference
        exact .inr ⟨.input name, List.mem_flatMap.mpr ⟨line, written, inside⟩,
          (wellFormed.inputText_module_iff member _).mpr ⟨unlinked, socket, input, asked⟩⟩

/-- A procedure imports what its nodes need and nothing else, each module once and none without a
name. -/
theorem compile_modules {compiled : Compiled}
    (done : tree.compile registry options = .ok compiled) :
    compiled.procedure.modules.Nodup ∧ ∀ module, module ∈ compiled.procedure.modules ↔
      module ≠ "" ∧ ∃ node ∈ tree.nodes, tree.Requests registry node module := by
  obtain ⟨wellFormed, order, compiledNodes, ordered, compiledAll, rfl⟩ := compile_ok done
  have perm := (wellFormed.nodes_of_order ordered).2
  refine ⟨Imports.nodup_eraseDups _, fun module => ?_⟩
  have requested := exists_mem_iff_of_forall₂
    (Q := fun compiled => module ∈
      (Linking.linkNode tree (Variables.ofTree tree) options compiled.assembled).modules)
    (forall₂_of_mapM compiledAll) fun node inside _ done =>
      wellFormed.mem_modules_linkNode_iff (perm.subset inside) done
  simp only [Linking.link, Imports.mem_modules_iff, List.mem_flatMap, List.mem_map,
    exists_exists_and_eq_and, requested, perm.mem_iff]

end Tree

end FrameGraph
