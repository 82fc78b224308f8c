import FrameGraph.Proofs.ClosedLiterals
import FrameGraph.Proofs.StandardNodes

/-!
The code of the standard kinds. Main statement: code that stands inline has a line for every output
that is linked, but for the socket of new parameters and for parameters of other nodes than the
entry of a subprogram.
-/

namespace FrameGraph

open Lexeme

theorem Socket.isDigit_of_mem_ordinal {n : Nat} {c : Char} (member : c ∈ (ordinal n).toList) :
    c.isDigit = true := by
  rw [ordinal, String.toList_ofList, List.mem_append] at member
  rcases member with zero | digit
  · rw [List.eq_of_mem_replicate zero]
    decide
  · exact digits_repr n c digit

namespace Catalog

theorem IsParameter.isIdentifier {identifier : String} (parameter : IsParameter identifier) :
    IsIdentifier identifier := by
  have named : IsIdentifier "parameter" := isIdentifier_ofList rfl rfl
  rcases parameter with rfl | ⟨n, rfl⟩
  · exact named
  · have underscore : ∀ c ∈ "_".toList, isIdentifierPart c = true := by
      change ∀ c ∈ ['_'], isIdentifierPart c = true
      exact List.forall_mem_singleton.mpr rfl
    exact (named.append underscore).append fun c member =>
      isIdentifierPart_of_isDigit (Socket.isDigit_of_mem_ordinal member)

theorem isIdentifier_of_mem_sockets {inline : InlineKind} {socket : String}
    (member : socket ∈ inline.sockets .output) : IsIdentifier socket := by
  cases inline with
  | groupInput =>
      obtain rfl := List.mem_singleton.mp member
      exact isIdentifier_ofList rfl rfl
  | quaternionMath =>
      obtain rfl := List.mem_singleton.mp member
      exact isIdentifier_ofList rfl rfl
  | projectPointOnPlane =>
      rcases List.mem_cons.mp member with rfl | member
      · exact isIdentifier_ofList rfl rfl
      · obtain rfl := List.mem_singleton.mp member
        exact isIdentifier_ofList rfl rfl

theorem InlineKind.disjoint_sockets (inline : InlineKind) :
    ∀ socket ∈ inline.sockets .output, socket ∉ inline.sockets .input := by
  cases inline <;> decide

/-- The outputs that no standard code assigns: the socket that turns links into parameters, and
parameters of nodes whose code computes only the outputs declared. -/
def Unassigned (kind socket : String) : Prop :=
  (kind = InlineKind.groupInput.idName ∧ socket = GroupInput.newParameterSocket) ∨
    ((kind = InlineKind.quaternionMath.idName ∨ kind = InlineKind.projectPointOnPlane.idName) ∧
      IsParameter socket)

structure Computes (code : RawCode) (socket : String) : Prop where
  nonempty : code.isEmpty = false
  closed : ∀ line ∈ Text.lines code.joined, Closed line
  assigned : ∃ value, socket ++ " = " ++ value ∈ Text.lines code.joined

theorem computes_of_lines {lines : List String} {socket : String} (value : String)
    (member : socket ++ " = " ++ value ∈ lines)
    (single : ∀ line ∈ lines, Text.IsLine line) (closed : ∀ line ∈ lines, Closed line) :
    Computes (.lines lines) socket := by
  have cut : Text.lines (RawCode.lines lines).joined = lines :=
    Text.lines_joinLines (List.ne_nil_of_mem member) single
  refine ⟨?_, cut.symm ▸ closed, value, cut.symm ▸ member⟩
  rw [RawCode.isEmpty, List.all_eq_false]
  exact ⟨_, member, by simp⟩

theorem computes_single {code socket : String} (value : String)
    (whole : socket ++ " = " ++ value = code) (unquoted : Unquoted code) :
    Computes (.single code) socket := by
  have cut : Text.lines (RawCode.single code).joined = [code] :=
    Text.lines_of_isLine unquoted.isLine
  refine ⟨?_, ?_, value, ?_⟩
  · rw [RawCode.isEmpty, ← whole]
    simp
  · rw [cut]
    exact fun line member => List.mem_singleton.mp member ▸ unquoted.closed
  · rw [cut, whole]
    exact List.mem_cons_self

variable {node : Node} {context : LinkContext} {socket : String}

theorem isLine_parameterLine {parameter : Socket} (identifier : IsIdentifier parameter.identifier) :
    Text.IsLine (GroupInput.parameterLine parameter) := by
  simp only [GroupInput.parameterLine, Text.isLine_append]
  exact ⟨⟨⟨⟨⟨identifier.isLine, by decide⟩, identifier.isLine⟩, by decide⟩,
    parameter.isLine_literal⟩, by decide⟩

theorem closed_parameterLine {parameter : Socket} (identifier : IsIdentifier parameter.identifier) :
    Closed (GroupInput.parameterLine parameter) := by
  have named : LiteralState.outside.run parameter.identifier.toList = .outside := identifier.closed
  have opened : LiteralState.outside.run " = self.parameters.get(\"".toList = .inside '"' := by
    decide
  have quoted := identifier.run_inside
  have closed : (LiteralState.inside '"').run "\", ".toList = .outside := by decide
  have value : LiteralState.outside.run parameter.literal.1.toList = .outside :=
    parameter.closed_literal
  simp only [Closed, GroupInput.parameterLine, String.toList_append, LiteralState.run_append]
  rw [named, opened, quoted, closed, value]
  decide

def parameterValue (parameter : Socket) : String :=
  "self.parameters.get(\"" ++ parameter.identifier ++ "\", " ++ parameter.literal.1 ++ ")"

theorem parameterLine_eq (parameter : Socket) :
    GroupInput.parameterLine parameter =
      parameter.identifier ++ " = " ++ parameterValue parameter := by
  have regroup (name equals get between default close : String) :
      name ++ (equals ++ get) ++ name ++ between ++ default ++ close =
        name ++ equals ++ (get ++ name ++ between ++ default ++ close) := by
    simp only [String.append_assoc]
  exact regroup parameter.identifier " = " "self.parameters.get(\"" "\", " parameter.literal.1 ")"

theorem Standard.isIdentifier_of_mem_parameters (standard : Standard node)
    (kind : node.kind = InlineKind.groupInput.idName) {parameter : Socket}
    (member : parameter ∈ GroupInput.parameters node) : IsIdentifier parameter.identifier := by
  have inside : parameter.identifier ∈ node.identifiers .output :=
    List.mem_map_of_mem (List.mem_filter.mp member).1
  rcases standard.outputs .groupInput kind _ inside with declared | added
  · exact isIdentifier_of_mem_sockets declared
  · exact added.isIdentifier

theorem computes_parameters (standard : Standard node)
    (kind : node.kind = InlineKind.groupInput.idName) (inside : socket ∈ node.identifiers .output)
    (linked : context.isOutputLinked socket = true)
    (other : socket ≠ GroupInput.newParameterSocket) :
    ∃ code, groupInput.code node context = .raw code ∧ Computes code socket := by
  obtain ⟨parameter, member, rfl⟩ := List.mem_map.mp inside
  have written : GroupInput.parameterLine parameter ∈
      ((GroupInput.parameters node).filter fun socket =>
        context.isOutputLinked socket.identifier).map GroupInput.parameterLine :=
    List.mem_map_of_mem (List.mem_filter.mpr
      ⟨List.mem_filter.mpr ⟨member, by simpa using other⟩, linked⟩)
  refine ⟨_, rfl,
    computes_of_lines (parameterValue parameter) (parameterLine_eq parameter ▸ written) ?_ ?_⟩
  · intro line member
    obtain ⟨parameter, chosen, rfl⟩ := List.mem_map.mp member
    exact isLine_parameterLine
      (standard.isIdentifier_of_mem_parameters kind (List.mem_filter.mp chosen).1)
  · intro line member
    obtain ⟨parameter, chosen, rfl⟩ := List.mem_map.mp member
    exact closed_parameterLine
      (standard.isIdentifier_of_mem_parameters kind (List.mem_filter.mp chosen).1)

theorem computes_of_unquoted {lines : List String} (value : String)
    (member : socket ++ " = " ++ value ∈ lines) (unquoted : ∀ line ∈ lines, Unquoted line) :
    Computes (.lines lines) socket :=
  computes_of_lines value member (fun line inside => (unquoted line inside).isLine)
    fun line inside => (unquoted line inside).closed

theorem computes_result (operation : QuaternionOperation) : Computes operation.code "result" := by
  cases operation with
  | add => exact computes_single "a + b" rfl (unquoted_ofList rfl)
  | subtract => exact computes_single "a - b" rfl (unquoted_ofList rfl)
  | combine => exact computes_single "a * b" rfl (unquoted_ofList rfl)
  | rotationDifference => exact computes_single "a.rotation_difference(b)" rfl (unquoted_ofList rfl)
  | multiply =>
      exact computes_single "mathutils.Quaternion((A * B for A, B in zip(a, b)))" rfl
        (unquoted_ofList rfl)
  | divide =>
      refine computes_of_unquoted "mathutils.Quaternion((1, 0, 0, 0))" List.mem_cons_self ?_
      simp only [List.forall_mem_cons]
      exact ⟨unquoted_ofList rfl, unquoted_ofList rfl, unquoted_ofList rfl, unquoted_ofList rfl,
        unquoted_ofList rfl, List.forall_mem_nil _⟩
  | cross => exact computes_single "a.cross(b)" rfl (unquoted_ofList rfl)
  | normalize => exact computes_single "a.normalized() * scale" rfl (unquoted_ofList rfl)
  | scale => exact computes_single "a * scale" rfl (unquoted_ofList rfl)
  | absolute =>
      exact computes_single "mathutils.Quaternion((abs(A) for A in a))" rfl (unquoted_ofList rfl)
  | invert => exact computes_single "a.inverted()" rfl (unquoted_ofList rfl)
  | conjugate => exact computes_single "a.conjugated()" rfl (unquoted_ofList rfl)
  | snap =>
      refine computes_of_unquoted "a.copy()" List.mem_cons_self ?_
      simp only [List.forall_mem_cons]
      exact ⟨unquoted_ofList rfl, unquoted_ofList rfl, unquoted_ofList rfl, unquoted_ofList rfl,
        unquoted_ofList rfl, List.forall_mem_nil _⟩

theorem unquoted_projectionLines : ∀ line ∈ projectionLines context, Unquoted line := by
  have base : ∀ line ∈ ["plane_co = planePoint",
      "plane_no = planeNormal if planeNormal.length_squared != 0 else mathutils.Vector((0, 0, 1))"],
      Unquoted line := by
    simp only [List.forall_mem_cons]
    exact ⟨unquoted_ofList rfl, unquoted_ofList rfl, List.forall_mem_nil _⟩
  have projection : ∀ line ∈
      ["intersection = mathutils.geometry.intersect_line_plane(point, point + plane_no, plane_co, plane_no, False)",
        "projection = mathutils.Vector((0, 0, 0)) if intersection is None else intersection"],
      Unquoted line := by
    simp only [List.forall_mem_cons]
    exact ⟨unquoted_ofList rfl, unquoted_ofList rfl, List.forall_mem_nil _⟩
  have distance : Unquoted
      "distance = mathutils.geometry.distance_point_to_plane(point, plane_co, plane_no)" :=
    unquoted_ofList rfl
  intro line member
  rw [projectionLines, List.mem_append, List.mem_append] at member
  rcases member with (member | member) | member
  · exact base line member
  · split at member
    · exact projection line member
    · cases member
  · split at member
    · exact List.mem_singleton.mp member ▸ distance
    · cases member

theorem computes_projection (linked : context.isOutputLinked socket = true)
    (output : socket ∈ InlineKind.projectPointOnPlane.sockets .output) :
    ∃ code, projectPointOnPlane.code node context = .raw code ∧ Computes code socket := by
  have any : context.anyOutputLinked = true := by
    have nonempty := List.ne_nil_of_mem (List.contains_iff_mem.mp linked)
    cases outputs : context.outputs with
    | nil => exact absurd outputs nonempty
    | cons first rest => rw [LinkContext.anyOutputLinked, outputs]; rfl
  have written : ∃ value, socket ++ " = " ++ value ∈ projectionLines context := by
    rcases List.mem_cons.mp output with rfl | output
    · refine ⟨"mathutils.Vector((0, 0, 0)) if intersection is None else intersection",
        List.mem_append_left _ (List.mem_append_right _ ?_)⟩
      rw [if_pos linked]
      exact List.mem_cons_of_mem _ List.mem_cons_self
    · obtain rfl := List.mem_singleton.mp output
      refine ⟨"mathutils.geometry.distance_point_to_plane(point, plane_co, plane_no)",
        List.mem_append_right _ ?_⟩
      rw [if_pos linked]
      exact List.mem_cons_self
  obtain ⟨value, member⟩ := written
  exact ⟨.lines (projectionLines context), by simp [projectPointOnPlane, any],
    computes_of_unquoted value member unquoted_projectionLines⟩

/-- Code that stands inline assigns every output that is linked, the exceptions apart. -/
theorem InlineKind.exists_computes (inline : InlineKind) (standard : Standard node)
    (kind : node.kind = inline.idName) (inside : socket ∈ node.identifiers .output)
    (linked : context.isOutputLinked socket = true) (assigned : ¬ Unassigned node.kind socket) :
    ∃ code, inline.kind.code node context = .raw code ∧ Computes code socket := by
  have named := standard.outputs inline kind socket inside
  cases inline with
  | groupInput =>
      exact computes_parameters standard kind inside linked fun last =>
        assigned (.inl ⟨kind, last⟩)
  | quaternionMath =>
      have result := named.resolve_right fun parameter => assigned (.inr ⟨.inl kind, parameter⟩)
      obtain rfl := List.mem_singleton.mp result
      exact ⟨_, rfl, computes_result _⟩
  | projectPointOnPlane =>
      have output := named.resolve_right fun parameter => assigned (.inr ⟨.inr kind, parameter⟩)
      exact computes_projection linked output

theorem Standard.isIdentifier_and_free (standard : Standard node) (inline : InlineKind)
    (kind : node.kind = inline.idName) (inside : socket ∈ node.identifiers .output)
    (assigned : ¬ Unassigned node.kind socket) :
    IsIdentifier socket ∧ socket ∉ node.identifiers .input := by
  have disjoint (declared : socket ∈ inline.sockets .output) : socket ∉ node.identifiers .input :=
    fun input => inline.disjoint_sockets socket declared (standard.inputs inline kind socket input)
  rcases standard.outputs inline kind socket inside with declared | parameter
  · exact ⟨isIdentifier_of_mem_sockets declared, disjoint declared⟩
  · refine ⟨parameter.isIdentifier, fun input => ?_⟩
    have input := standard.inputs inline kind socket input
    cases inline with
    | groupInput => cases input
    | quaternionMath => exact assigned (.inr ⟨.inl kind, parameter⟩)
    | projectPointOnPlane => exact assigned (.inr ⟨.inr kind, parameter⟩)

theorem code_of_mem {kind : Kind} (member : kind ∈ kinds) :
    kind.code = (fun _ _ => .procedure) ∨ ∃ inline : InlineKind, kind = inline.kind := by
  fin_cases member <;> first
    | exact .inl rfl
    | exact .inr ⟨.groupInput, rfl⟩
    | exact .inr ⟨.quaternionMath, rfl⟩
    | exact .inr ⟨.projectPointOnPlane, rfl⟩

end Catalog

end FrameGraph
