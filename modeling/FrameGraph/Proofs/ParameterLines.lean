import FrameGraph.Proofs.AddedParameters
import FrameGraph.Proofs.FragmentText
import FrameGraph.Proofs.LiteralNames
import FrameGraph.Proofs.StandardCode

/-!
The code of the entry node of a subprogram. Main statement: its lines are those of the linked
parameters in their order, each with the literal of its own value as it stands.
-/

namespace FrameGraph

open Lexeme

namespace Lexeme

theorem IsIdentifier.quoted_eq {s : String} (identifier : IsIdentifier s) :
    "\"" ++ s ++ "\"" = stringLiteral s := by
  have each (c : Char) (member : c ∈ s.toList) : escapeLiteralChar c = [c] := by
    have part := identifier.part c member
    unfold escapeLiteralChar
    split
    all_goals first
      | rfl
      | exact absurd part (by decide)
  have same : s.toList.flatMap escapeLiteralChar = s.toList := by
    rw [List.flatMap_congr each, List.flatMap_singleton']
  rw [stringLiteral, same, String.ofList_toList]

end Lexeme

namespace Assembly

variable {node : Node}

/-- The marked lines of code are the lines of the code with the names that refer to the node marked,
if no name of a socket goes on beyond a line. -/
theorem markedLines_raw (inputs : ∀ name ∈ node.inputs.map (·.identifier), Text.IsLine name)
    (outputs : ∀ name ∈ node.outputs.map (·.identifier), Text.IsLine name) {code : RawCode}
    (nonempty : code.isEmpty = false) :
    markedLines node (.raw code) =
      Text.lines (rewrite (fun name => (tokenOf node name).marked) code.joined) := by
  have keeps : Token.KeepsText Token.marked := fun _ => rfl
  have wrapped (tag : Char) (plain : '\n' ≠ tag) {name : String} (line : Text.IsLine name) :
      Text.IsLine (Tag.wrap tag name) := by
    have marker : Text.IsLine tag.toString := by simpa [Text.IsLine] using plain
    exact Text.isLine_append.mpr ⟨Text.isLine_append.mpr ⟨marker, line⟩, marker⟩
  have single : Token.OnOneLine Token.marked (tokens node code.joined) := by
    intro token member reference
    obtain ⟨name, rfl | rfl⟩ := mem_mapNames member
    · unfold tokenOf at reference ⊢
      split
      · rename_i input
        exact wrapped Tag.input (by decide) (inputs name (Node.hasInput_iff.mp input))
      · split
        · rename_i output
          exact wrapped Tag.output (by decide) (outputs name (Node.hasOutput_iff.mp output))
        · split
          · exact wrapped Tag.self (by decide) (by decide)
          · simp_all [Token.isText]
    · cases reference
  calc
    markedLines node (.raw code)
        = (Fragment.ofTokens (tokens node code.joined)).splitLines.map
            (Fragment.render Token.marked) := by
          rw [markedLines, assemble, rawLines, nonempty]
          rfl
    _ = Text.lines (String.join ((tokens node code.joined).map Token.marked)) :=
          Fragment.map_render_splitLines_ofTokens keeps single
    _ = Text.lines (rewrite (fun name => (tokenOf node name).marked) code.joined) := by
          rw [tokens, join_map_mapNames_lex _ _ _ fun _ => rfl]

end Assembly

namespace Catalog.GroupInput

structure Parameter where
  name : String
  type : SocketType
  value : Value

def Parameter.socket (parameter : Parameter) (index : Nat) : Socket :=
  ⟨parameter.name, Socket.numbered "parameter" index, parameter.type, parameter.value⟩

def addParameters (node : Node) (added : List Parameter) : Node :=
  added.foldl
    (fun node parameter => addParameter node parameter.type parameter.name parameter.value) node

def parameterSockets (added : List Parameter) : List Socket :=
  added.mapIdx fun index parameter => parameter.socket index

def placeholder : Socket :=
  .ofType .empty "New Parameter" newParameterSocket

theorem addParameters_concat (node : Node) (added : List Parameter) (last : Parameter) :
    addParameters node (added ++ [last]) =
      addParameter (addParameters node added) last.type last.name last.value := by
  rw [addParameters, List.foldl_append]
  rfl

theorem identifiers_parameterSockets (added : List Parameter) :
    (parameterSockets added).map (·.identifier) =
      (List.range added.length).map (Socket.numbered "parameter") := by
  apply List.ext_getElem
  · simp [parameterSockets]
  · intro index _ _
    simp [parameterSockets, Parameter.socket]

theorem isParameter_of_mem {added : List Parameter} {parameter : Socket}
    (member : parameter ∈ parameterSockets added) : IsParameter parameter.identifier := by
  have named : parameter.identifier ∈ (parameterSockets added).map (·.identifier) :=
    List.mem_map_of_mem member
  rw [identifiers_parameterSockets] at named
  obtain ⟨index, -, same⟩ := List.mem_map.mp named
  exact same ▸ isParameter_numbered index

theorem nodup_parameterSockets (added : List Parameter) :
    ((parameterSockets added ++ [placeholder]).map (·.identifier)).Nodup := by
  rw [List.map_append, List.nodup_append]
  refine ⟨?_, List.nodup_singleton _, ?_⟩
  · rw [identifiers_parameterSockets]
    exact List.nodup_range.map fun _ _ => Socket.numbered_inj.mp
  · intro name parameter other last
    obtain ⟨socket, member, rfl⟩ := List.mem_map.mp parameter
    obtain rfl := List.mem_singleton.mp last
    exact (isParameter_of_mem member).ne_newParameterSocket

theorem filter_parameterSockets (added : List Parameter) :
    (parameterSockets added ++ [placeholder]).filter (·.identifier ≠ newParameterSocket) =
      parameterSockets added := by
  have kept : ∀ socket ∈ parameterSockets added,
      decide (socket.identifier ≠ newParameterSocket) = true := fun socket member =>
    decide_eq_true (isParameter_of_mem member).ne_newParameterSocket
  rw [List.filter_append, List.filter_eq_self.mpr kept]
  exact List.append_nil _

theorem inputs_addParameters (node : Node) (added : List Parameter) :
    (addParameters node added).inputs = node.inputs := by
  induction added using List.reverseRecOn with
  | nil => rfl
  | append_singleton added last ih => rw [addParameters_concat, inputs_addParameter, ih]

theorem outputs_addParameters {node : Node} (created : node.outputs = [placeholder])
    (added : List Parameter) :
    (addParameters node added).outputs = parameterSockets added ++ [placeholder] := by
  induction added using List.reverseRecOn with
  | nil => exact created
  | append_singleton added last ih =>
      have nodup := nodup_parameterSockets added
      have taken (index : Nat) (below : index < added.length) :
          Socket.numbered "parameter" index ∈
            (parameterSockets added ++ [placeholder]).map (·.identifier) := by
        rw [List.map_append, identifiers_parameterSockets]
        exact List.mem_append_left _ (List.mem_map_of_mem (List.mem_range.mpr below))
      have free : Socket.numbered "parameter" added.length ∉
          (parameterSockets added ++ [placeholder]).map (·.identifier) := by
        rw [List.map_append, identifiers_parameterSockets, List.mem_append, not_or]
        refine ⟨fun member => ?_, fun member => ?_⟩
        · obtain ⟨index, below, same⟩ := List.mem_map.mp member
          obtain rfl := Socket.numbered_inj.mp same
          exact absurd (List.mem_range.mp below) (lt_irrefl _)
        · exact (isParameter_numbered _).ne_newParameterSocket (List.mem_singleton.mp member)
      have next : nextParameter (addParameters node added) =
          Socket.numbered "parameter" added.length := by
        change Socket.freeIdentifier (addParameters node added).outputs "parameter" = _
        rw [ih]
        exact Socket.freeIdentifier_eq_numbered taken free
      have found : Socket.find? (parameterSockets added ++ [placeholder]) newParameterSocket =
          some placeholder := by
        have other : ∀ socket ∈ parameterSockets added,
            ¬ decide (socket.identifier = newParameterSocket) = true := fun socket member => by
          simpa using (isParameter_of_mem member).ne_newParameterSocket
        rw [Socket.find?, List.find?_append, List.find?_eq_none.mpr other]
        rfl
      have longer : parameterSockets (added ++ [last]) =
          parameterSockets added ++ [last.socket added.length] :=
        List.mapIdx_concat
      rw [addParameters_concat, outputs_addParameter (ih ▸ nodup), parameters, ih,
        filter_parameterSockets, next, found, longer, List.append_assoc]
      rfl

/-- The line of a parameter is rewritten in its name and in `self` only, if all words of literals
stay. -/
theorem rewrite_parameterLine {replace : String → String}
    (fixed : ∀ word ∈ literalWords, replace word = word) {parameter : Socket}
    (identifier : IsIdentifier parameter.identifier) :
    rewrite replace (parameterLine parameter) =
      replace parameter.identifier ++ " = " ++ replace "self" ++ ".parameters.get(\"" ++
        parameter.identifier ++ "\", " ++ parameter.literal.1 ++ ")" := by
  let name := "\"" ++ parameter.identifier ++ "\""
  have pieces : parameterLine parameter = parameter.identifier ++ " = " ++
      ("self.parameters.get" ++ "(" ++ (name ++ ", " ++ (parameter.literal.1 ++ ")" ++ ""))) := by
    have get : " = self.parameters.get(\"" =
        " = " ++ ("self.parameters.get" ++ ("(" ++ "\"")) := rfl
    have quote : "\", " = "\"" ++ ", " := rfl
    simp only [parameterLine, name, get, quote, String.append_assoc, String.append_empty]
  have lookup : rewrite replace "self.parameters.get" = replace "self" ++ ".parameters.get" := by
    have cut : lex "self.parameters.get" = [⟨.identifier, "self"⟩, ⟨.other, "."⟩,
        ⟨.identifier, "parameters"⟩, ⟨.other, "."⟩, ⟨.identifier, "get"⟩] := by
      decide +kernel
    rw [rewrite, cut]
    simp [rewriteFrom]
  have literal : name = stringLiteral parameter.identifier := identifier.quoted_eq
  have closed : Closed name := literal ▸ closed_stringLiteral parameter.identifier
  have quoted : rewrite replace name = name := by
    refine rewrite_eq_self fun word member => ?_
    rw [literal, names_stringLiteral] at member
    cases member
  have default : rewrite replace parameter.literal.1 = parameter.literal.1 :=
    rewrite_eq_self fun word member => fixed word (parameter.names_literal_subset member)
  have nothing : rewrite replace "" = "" := rewrite_eq_self fun word member => by
    simp [names, lex, lexChars, namesFrom] at member
  rw [pieces, rewrite_append_separator identifier.closed (isSeparator_ofList rfl),
    rewrite_append_separator (by decide) (isSeparator_ofList rfl),
    rewrite_append_separator closed (isSeparator_ofList rfl),
    rewrite_append_separator parameter.closed_literal (isSeparator_ofList rfl),
    rewrite_of_isIdentifier identifier, lookup, quoted, default, nothing]
  have get : ".parameters.get(\"" = ".parameters.get" ++ ("(" ++ "\"") := rfl
  have quote : "\", " = "\"" ++ ", " := rfl
  simp only [name, get, quote, String.append_assoc, String.append_empty]

/-- The line that binds a parameter, with the names that refer to the node marked. -/
def markedParameterLine (parameter : Socket) : String :=
  "$" ++ parameter.identifier ++ "$ = #self#.parameters.get(\"" ++ parameter.identifier ++ "\", " ++
    parameter.literal.1 ++ ")"

/-- A group input node as it is created, with parameters added to it. -/
def newGroupInput (identifier kind : String) (added : List Parameter) : Node :=
  addParameters (groupInput.create (Node.ofKind identifier kind)) added

variable {identifier kind : String} {added : List Parameter}

theorem inputs_newGroupInput : (newGroupInput identifier kind added).inputs = [] :=
  inputs_addParameters _ added

theorem outputs_newGroupInput :
    (newGroupInput identifier kind added).outputs = parameterSockets added ++ [placeholder] :=
  outputs_addParameters rfl added

theorem isIdentifier_of_mem_newGroupInput {name : String}
    (member : name ∈ (newGroupInput identifier kind added).outputs.map (·.identifier)) :
    IsIdentifier name := by
  rw [outputs_newGroupInput, List.map_append, List.mem_append] at member
  rcases member with parameter | last
  · obtain ⟨socket, member, rfl⟩ := List.mem_map.mp parameter
    exact (isParameter_of_mem member).isIdentifier
  · obtain rfl := List.mem_singleton.mp last
    exact isIdentifier_ofList rfl rfl

theorem tokenOf_parameter {parameter : Socket} (member : parameter ∈ parameterSockets added) :
    Assembly.tokenOf (newGroupInput identifier kind added) parameter.identifier =
      .output parameter.identifier := by
  have output : (newGroupInput identifier kind added).hasOutput parameter.identifier = true := by
    rw [Node.hasOutput_iff, outputs_newGroupInput]
    exact List.mem_map_of_mem (List.mem_append_left _ member)
  have input : (newGroupInput identifier kind added).hasInput parameter.identifier = false := by
    rw [Node.hasInput, inputs_newGroupInput]
    rfl
  rw [Assembly.tokenOf, input, output]
  rfl

theorem tokenOf_word {word : String} (head : word.toList.head? ≠ some 'p')
    (other : word ≠ newParameterSocket) :
    Assembly.tokenOf (newGroupInput identifier kind added) word =
      if word = Assembly.selfName then .self else .text word := by
  have output : (newGroupInput identifier kind added).hasOutput word = false := by
    rw [← Bool.not_eq_true, Node.hasOutput_iff, outputs_newGroupInput, List.map_append,
      List.mem_append, not_or]
    refine ⟨fun parameter => ?_, fun last => other (List.mem_singleton.mp last)⟩
    obtain ⟨socket, member, rfl⟩ := List.mem_map.mp parameter
    exact head (isParameter_of_mem member).head?
  have input : (newGroupInput identifier kind added).hasInput word = false := by
    rw [Node.hasInput, inputs_newGroupInput]
    rfl
  rw [Assembly.tokenOf, input, output]
  rfl

def marking (identifier kind : String) (added : List Parameter) (name : String) : String :=
  (Assembly.tokenOf (newGroupInput identifier kind added) name).marked

theorem marking_self : marking identifier kind added "self" = "#self#" := by
  rw [marking, tokenOf_word (by decide) (by decide)]
  rfl

theorem marking_literalWord {word : String} (member : word ∈ literalWords) :
    marking identifier kind added word = word := by
  have plain : word.toList.head? ≠ some 'p' ∧ word ≠ newParameterSocket ∧
      word ≠ Assembly.selfName := by
    fin_cases member <;> decide
  rw [marking, tokenOf_word plain.1 plain.2.1, if_neg plain.2.2]
  rfl

theorem rewrite_marking {parameter : Socket} (member : parameter ∈ parameterSockets added) :
    rewrite (marking identifier kind added) (parameterLine parameter) =
      markedParameterLine parameter := by
  have name : marking identifier kind added parameter.identifier =
      "$" ++ parameter.identifier ++ "$" :=
    congrArg Token.marked (tokenOf_parameter member)
  have equals : "$ = #self#.parameters.get(\"" =
      "$" ++ " = " ++ "#self#" ++ ".parameters.get(\"" := rfl
  rw [rewrite_parameterLine (fun _ => marking_literalWord) (isParameter_of_mem member).isIdentifier,
    name, marking_self]
  simp only [markedParameterLine, equals, String.append_assoc]

theorem isLine_markedParameterLine {parameter : Socket}
    (identifier : IsIdentifier parameter.identifier) :
    Text.IsLine (markedParameterLine parameter) := by
  simp only [markedParameterLine, Text.isLine_append]
  exact ⟨⟨⟨⟨⟨⟨by decide, identifier.isLine⟩, by decide⟩, identifier.isLine⟩, by decide⟩,
    parameter.isLine_literal⟩, by decide⟩

theorem code_newGroupInput (context : LinkContext) :
    groupInput.code (newGroupInput identifier kind added) context =
      .raw (.lines (((parameterSockets added).filter fun parameter =>
        context.isOutputLinked parameter.identifier).map parameterLine)) := by
  change Contribution.raw (.lines (((parameters _).filter _).map parameterLine)) = _
  rw [parameters, outputs_newGroupInput, filter_parameterSockets]

/-- A group input with any parameters has a line for every parameter that is linked, in order, and
no other lines. Whatever the value of a parameter holds, its literal stands in the line character
for character, and only the parameter and the node itself are marked. -/
theorem markedLines_newGroupInput (identifier kind : String) (added : List Parameter)
    (context : LinkContext) :
    (newGroupInput identifier kind added).outputs = parameterSockets added ++ [placeholder] ∧
    ((parameterSockets added ++ [placeholder]).map (·.identifier)).Nodup ∧
    Assembly.markedLines (newGroupInput identifier kind added)
        (groupInput.code (newGroupInput identifier kind added) context) =
      ((parameterSockets added).filter fun parameter =>
        context.isOutputLinked parameter.identifier).map markedParameterLine := by
  refine ⟨outputs_newGroupInput, nodup_parameterSockets added, ?_⟩
  rw [code_newGroupInput]
  generalize chosen : (parameterSockets added).filter (fun parameter =>
    context.isOutputLinked parameter.identifier) = linked
  have parameter (socket : Socket) (member : socket ∈ linked) : socket ∈ parameterSockets added :=
    (List.mem_filter.mp (chosen ▸ member)).1
  by_cases silent : linked = []
  · rw [silent]
    rfl
  · have nonempty : (RawCode.lines (linked.map parameterLine)).isEmpty = false := by
      obtain ⟨first, rest, split⟩ := List.exists_cons_of_ne_nil silent
      simp [split, RawCode.isEmpty, parameterLine]
    have inputs : ∀ name ∈ (newGroupInput identifier kind added).inputs.map (·.identifier),
        Text.IsLine name := by
      rw [inputs_newGroupInput]
      exact List.forall_mem_nil _
    have closed : ∀ line ∈ linked.map parameterLine, Closed line :=
      List.forall_mem_map.mpr fun socket member =>
        closed_parameterLine (isParameter_of_mem (parameter socket member)).isIdentifier
    have marked : (linked.map parameterLine).map (rewrite (marking identifier kind added)) =
        linked.map markedParameterLine := by
      rw [List.map_map]
      exact List.map_congr_left fun socket member => rewrite_marking (parameter socket member)
    have single : ∀ line ∈ linked.map markedParameterLine, Text.IsLine line :=
      List.forall_mem_map.mpr fun socket member =>
        isLine_markedParameterLine (isParameter_of_mem (parameter socket member)).isIdentifier
    calc
      Assembly.markedLines (newGroupInput identifier kind added)
            (.raw (.lines (linked.map parameterLine)))
          = Text.lines (rewrite (marking identifier kind added)
              (Text.joinLines (linked.map parameterLine))) :=
            Assembly.markedLines_raw inputs
              (fun name member => (isIdentifier_of_mem_newGroupInput member).isLine) nonempty
      _ = Text.lines (Text.joinLines (linked.map markedParameterLine)) := by
            rw [rewrite_joinLines closed, marked]
      _ = linked.map markedParameterLine :=
            Text.lines_joinLines (by simpa using silent) single

/-- A text with quotes, a newline and words of its own line, and a nested list. -/
def mixedParameters : List Parameter :=
  [⟨"Text", .string, .string "\"self\"\n\\'parameter"⟩, ⟨"Unused", .integer, .integer 1⟩,
    ⟨"Items", .generic, .list [.list [.none]]⟩]

example :
    Assembly.markedLines (newGroupInput "n" "an_GroupInput" mixedParameters)
        (groupInput.code (newGroupInput "n" "an_GroupInput" mixedParameters)
          ⟨[], ["parameter_002", "parameter", newParameterSocket]⟩) =
      ["$parameter$ = #self#.parameters.get(\"parameter\", \"\\\"self\\\"\\n\\\\'parameter\")",
        "$parameter_002$ = #self#.parameters.get(\"parameter_002\", [[None]])"] := by
  decide +kernel

end Catalog.GroupInput

end FrameGraph
