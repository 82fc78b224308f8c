import FrameGraph.Proofs.LiteralModules
import FrameGraph.Proofs.StandardCode

/-!
The host modules that the inline code of the standard kinds names. Main statement: they are among
those that the kind declares for the node.
-/

namespace FrameGraph

open Lexeme

namespace Catalog

/-- Code that names no host modules but those given, and has no string literal that goes on beyond a
line. -/
structure NamesAmong (code : RawCode) (modules : List String) : Prop where
  closed : ∀ line ∈ Text.lines code.joined, Closed line
  named : ∀ line ∈ Text.lines code.joined, ∀ module ∈ hostModules, module ∈ names line →
    module ∈ modules

theorem namesAmong_of_lines {lines modules : List String} (nonempty : lines ≠ [])
    (single : ∀ line ∈ lines, Text.IsLine line) (closed : ∀ line ∈ lines, Closed line)
    (named : ∀ line ∈ lines, ∀ module ∈ hostModules, module ∈ names line → module ∈ modules) :
    NamesAmong (.lines lines) modules := by
  have cut : Text.lines (RawCode.lines lines).joined = lines := Text.lines_joinLines nonempty single
  exact ⟨cut.symm ▸ closed, cut.symm ▸ named⟩

/-! Code in which the mesh module is not written names at most the other. -/

structure Meshless (line : String) : Prop where
  unquoted : Unquoted line
  unwritten : ¬ "bmesh".toList <:+: line.toList

theorem meshless_ofList {cs : List Char}
    (unquoted : cs.all (fun c => c != '\n' && !isQuote c) = true)
    (unwritten : cs.tails.all
      (fun rest => !List.isPrefixOf ['b', 'm', 'e', 's', 'h'] rest) = true) :
    Meshless (String.ofList cs) := by
  refine ⟨unquoted_ofList unquoted, ?_⟩
  rintro ⟨before, after, whole⟩
  have inside : "bmesh".toList ++ after ∈ cs.tails := by
    rw [List.mem_tails, ← whole.trans String.toList_ofList, List.append_assoc]
    exact List.suffix_append _ _
  have start := List.all_eq_true.mp unwritten _ inside
  simp at start

theorem Meshless.mem {line module : String} (meshless : Meshless line)
    (host : module ∈ hostModules) (named : module ∈ names line) : module ∈ ["mathutils"] := by
  rcases List.mem_cons.mp host with rfl | host
  · exact List.mem_cons_self
  · obtain rfl := List.mem_singleton.mp host
    exact absurd (infix_of_mem_names named) meshless.unwritten

theorem namesAmong_of_meshless {lines : List String} (nonempty : lines ≠ [])
    (meshless : ∀ line ∈ lines, Meshless line) : NamesAmong (.lines lines) ["mathutils"] :=
  namesAmong_of_lines nonempty (fun line member => (meshless line member).unquoted.isLine)
    (fun line member => (meshless line member).unquoted.closed)
    fun line member _ => (meshless line member).mem

theorem namesAmong_single {code : String} (meshless : Meshless code) :
    NamesAmong (.single code) ["mathutils"] := by
  have cut : Text.lines (RawCode.single code).joined = [code] :=
    Text.lines_of_isLine meshless.unquoted.isLine
  refine ⟨?_, ?_⟩
  · rw [cut, List.forall_mem_singleton]
    exact meshless.unquoted.closed
  · rw [cut, List.forall_mem_singleton]
    exact fun _ => meshless.mem

theorem namesAmong_operation (operation : QuaternionOperation) :
    NamesAmong operation.code ["mathutils"] := by
  cases operation with
  | divide | snap =>
      refine namesAmong_of_meshless (List.cons_ne_nil _ _) ?_
      simp only [List.forall_mem_cons]
      exact ⟨meshless_ofList rfl rfl, meshless_ofList rfl rfl, meshless_ofList rfl rfl,
        meshless_ofList rfl rfl, meshless_ofList rfl rfl, List.forall_mem_nil _⟩
  | _ => exact namesAmong_single (meshless_ofList rfl rfl)

theorem namesAmong_projection (context : LinkContext) :
    NamesAmong (.lines (projectionLines context)) ["mathutils"] := by
  refine namesAmong_of_meshless (List.cons_ne_nil _ _) ?_
  simp only [projectionLines, List.forall_mem_append, List.forall_mem_cons]
  refine ⟨⟨⟨meshless_ofList rfl rfl, meshless_ofList rfl rfl, List.forall_mem_nil _⟩, ?_⟩, ?_⟩
  · split
    · simp only [List.forall_mem_cons]
      exact ⟨meshless_ofList rfl rfl, meshless_ofList rfl rfl, List.forall_mem_nil _⟩
    · exact List.forall_mem_nil _
  · split
    · exact List.forall_mem_singleton.mpr (meshless_ofList rfl rfl)
    · exact List.forall_mem_nil _

/-! A parameter names the modules of its default. -/

def parameterLookup (identifier : String) : String :=
  identifier ++ " = self.parameters.get(\"" ++ identifier ++ "\""

theorem closed_parameterLookup {identifier : String} (named : IsIdentifier identifier) :
    Closed (parameterLookup identifier) := by
  have front : LiteralState.outside.run identifier.toList = .outside := named.closed
  have opened : LiteralState.outside.run " = self.parameters.get(\"".toList = .inside '"' := by
    decide
  have quoted := named.run_inside
  simp only [Closed, parameterLookup, String.toList_append, LiteralState.run_append]
  rw [front, opened, quoted]
  decide

theorem names_parameterLine_subset {parameter : Socket}
    (named : IsIdentifier parameter.identifier) :
    names (GroupInput.parameterLine parameter) ⊆
      names (parameterLookup parameter.identifier) ++ names parameter.literal.1 := by
  have comma : ∀ c ∈ ", ".toList, startsLexeme c = false := plain_ofList rfl
  have closes : ∀ c ∈ ")".toList, startsLexeme c = false := plain_ofList rfl
  have whole : GroupInput.parameterLine parameter =
      parameterLookup parameter.identifier ++ (", " ++ parameter.literal.1 ++ ")") := by
    have quote : "\", " = "\"" ++ ", " := rfl
    simp only [GroupInput.parameterLine, parameterLookup, quote, String.append_assoc]
  rw [whole]
  intro name member
  have parts := names_append_subset (closed_parameterLookup named) (fun d head => ?_) member
  · rw [List.mem_append] at parts ⊢
    refine parts.imp_right fun member => ?_
    refine names_enclosed_subset comma parameter.closed_literal closes (fun d head => ?_) member
    obtain rfl : ')' = d := Option.some.inj head
    decide
  · rw [String.toList_append, String.toList_append] at head
    obtain rfl : ',' = d := Option.some.inj head
    decide

theorem Standard.not_mem_of_mem_parameters (standard : Standard node)
    (kind : node.kind = InlineKind.groupInput.idName) {parameter : Socket}
    (member : parameter ∈ GroupInput.parameters node) : 'h' ∉ parameter.identifier.toList := by
  have inside : parameter.identifier ∈ node.identifiers .output :=
    List.mem_map_of_mem (List.mem_filter.mp member).1
  rcases standard.outputs .groupInput kind _ inside with declared | plain | ⟨n, numbered⟩
  · rw [List.mem_singleton.mp declared]
    decide
  · rw [plain]
    decide
  · rw [numbered, String.toList_append, List.mem_append, not_or]
    exact ⟨by decide, fun digit => absurd (Socket.isDigit_of_mem_ordinal digit) (by decide)⟩

theorem Standard.requires_of_mem_parameterLine (standard : Standard node)
    (kind : node.kind = InlineKind.groupInput.idName) {parameter : Socket}
    (member : parameter ∈ GroupInput.parameters node) {module : String}
    (host : module ∈ hostModules) (named : module ∈ names (GroupInput.parameterLine parameter)) :
    parameter.literal.2 = some module := by
  have identifier := standard.isIdentifier_of_mem_parameters kind member
  have unwritten : 'h' ∉ (parameterLookup parameter.identifier).toList := by
    have front := standard.not_mem_of_mem_parameters kind member
    simp only [parameterLookup, String.toList_append, List.mem_append, not_or]
    exact ⟨⟨⟨front, by decide⟩, front⟩, by decide⟩
  rcases List.mem_append.mp (names_parameterLine_subset identifier named) with named | named
  · exact absurd named (not_mem_names_of_unwritten host unwritten)
  · exact parameter.namesOnly_literal module host named

/-- Inline code names no host modules but those that its kind declares for the node. -/
theorem InlineKind.exists_namesAmong (inline : InlineKind) (standard : Standard node)
    (kind : node.kind = inline.idName) (context : LinkContext) :
    ∃ code, inline.kind.code node context = .raw code ∧
      (code.isEmpty = true ∨ NamesAmong code (inline.kind.usedModules node)) := by
  cases inline with
  | groupInput =>
      refine ⟨_, rfl, ?_⟩
      by_cases silent : ((GroupInput.parameters node).filter fun socket =>
          context.isOutputLinked socket.identifier).map GroupInput.parameterLine = []
      · left
        rw [silent]
        rfl
      · right
        refine namesAmong_of_lines silent (List.forall_mem_map.mpr fun parameter chosen => ?_)
          (List.forall_mem_map.mpr fun parameter chosen => ?_)
          (List.forall_mem_map.mpr fun parameter chosen module host named => ?_)
        · exact isLine_parameterLine
            (standard.isIdentifier_of_mem_parameters kind (List.mem_filter.mp chosen).1)
        · exact closed_parameterLine
            (standard.isIdentifier_of_mem_parameters kind (List.mem_filter.mp chosen).1)
        · have member := (List.mem_filter.mp chosen).1
          exact List.mem_filterMap.mpr
            ⟨parameter, member, standard.requires_of_mem_parameterLine kind member host named⟩
  | quaternionMath => exact ⟨_, rfl, .inr (namesAmong_operation _)⟩
  | projectPointOnPlane =>
      refine ⟨_, rfl, ?_⟩
      split
      · exact .inr (namesAmong_projection context)
      · exact .inl rfl

end Catalog

end FrameGraph
