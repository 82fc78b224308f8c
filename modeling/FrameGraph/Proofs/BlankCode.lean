import FrameGraph.Proofs.Contributions
import FrameGraph.Proofs.DistinctLiterals
import FrameGraph.Text.Blank

/-!
Code of white space only. Main statement: the lines of a node are all blank exactly if it gives
inline code that is blank, since every name that is replaced leaves something to see.
-/

namespace FrameGraph

namespace Text

theorem isBlank_append (s t : String) : isBlank (s ++ t) = (isBlank s && isBlank t) := by
  rw [isBlank, String.toList_append, List.all_append]
  rfl

theorem isBlank_join (parts : List String) : isBlank (String.join parts) = parts.all isBlank := by
  induction parts with
  | nil => rfl
  | cons first rest ih => rw [String.join_cons, isBlank_append, ih, List.all_cons]

theorem isBlank_joinLines (ls : List String) : isBlank (joinLines ls) = ls.all isBlank := by
  induction ls with
  | nil => rfl
  | cons first rest ih =>
      have newline : isBlank "\n" = true := by decide
      by_cases last : rest = []
      · simp [last]
      · rw [joinLines, String.intercalate_cons_of_ne_nil last, isBlank_append, isBlank_append,
          newline, Bool.and_true, List.all_cons]
        exact congrArg (isBlank first && ·) ih

theorem all_isBlank_lines (s : String) : (lines s).all isBlank = isBlank s := by
  rw [← isBlank_joinLines, joinLines_lines]

theorem isBlank_eq_false_of_mem {s : String} {c : Char} (member : c ∈ s.toList)
    (shown : isBlankChar c = false) : isBlank s = false :=
  List.all_eq_false.mpr ⟨c, member, by simp [shown]⟩

def blankPoints : List Nat :=
  blankRanges.flatMap fun range => List.range' range.1 (range.2 + 1 - range.1)

theorem mem_blankPoints {c : Char} (blank : isBlankChar c = true) : c.toNat ∈ blankPoints := by
  obtain ⟨range, member, low, high⟩ := inRanges_iff.mp blank
  refine List.mem_flatMap.mpr ⟨range, member, List.mem_range'_1.mpr ⟨low, ?_⟩⟩
  omega

theorem isBlankChar_eq_false_of_test (test : Char → Bool)
    (fails : ∀ point ∈ blankPoints, test (Char.ofNat point) = false) {c : Char}
    (passed : test c = true) : isBlankChar c = false := by
  rw [← Bool.not_eq_true]
  intro blank
  have failed := fails c.toNat (mem_blankPoints blank)
  rw [Char.ofNat_toNat, passed] at failed
  contradiction

end Text

/-! ### What names are replaced by -/

theorem Variables.IsName.isBlank {s : String} (name : IsName s) : Text.isBlank s = false := by
  obtain ⟨first, rest, cs, -, each⟩ := name
  have member : first ∈ s.toList := by simp [cs]
  exact Text.isBlank_eq_false_of_mem member (Text.isBlankChar_eq_false_of_test isNameChar
    (by decide +kernel) (each first List.mem_cons_self))

theorem Value.isBlank_literal (value : Value) : Text.isBlank value.literal = false := by
  obtain ⟨c, cs, text, shape⟩ := value.form.exists_text
  have member : c ∈ value.literal.toList := by simp [value.toList_literal, text]
  refine Text.isBlank_eq_false_of_mem member (Text.isBlankChar_eq_false_of_test
    (fun c => (LiteralForm.shapeAt? c).isSome) (by decide +kernel) ?_)
  rw [shape]
  rfl

theorem Socket.isBlank_literal (socket : Socket) : Text.isBlank socket.literal.1 = false := by
  unfold Socket.literal
  split
  · decide
  · exact socket.value.isBlank_literal

namespace Lexeme

theorem isBlank_of_identifier {cs : List Char} {lexeme : Lexeme} (member : lexeme ∈ lexChars cs)
    (identifier : lexeme.kind = .identifier) : Text.isBlank lexeme.text = false := by
  fun_induction lexChars cs with
  | case1 => simp at member
  | case2 c rest ih =>
      rcases List.mem_cons.mp member with rfl | member
      · have start := isIdentifierStart_of_splitFirst identifier
        exact Text.isBlank_eq_false_of_mem (c := c) (by simp)
          (Text.isBlankChar_eq_false_of_test isIdentifierStart (by decide +kernel) start)
      · exact ih member

variable {replace : String → String}

/-- Replacing names by something to see, as they are themselves, keeps white space apart. -/
theorem isBlank_rewriteFrom
    (shown : ∀ name, Text.isBlank name = false → Text.isBlank (replace name) = false)
    {lexemes : List Lexeme}
    (identifiers : ∀ lexeme ∈ lexemes, lexeme.kind = .identifier →
      Text.isBlank lexeme.text = false) (before : List Char) :
    Text.isBlank (rewriteFrom replace before lexemes) =
      lexemes.all fun lexeme => Text.isBlank lexeme.text := by
  induction lexemes generalizing before with
  | nil => rfl
  | cons lexeme rest ih =>
      have tail := ih (fun other member => identifiers other (List.mem_cons_of_mem _ member))
        (before ++ lexeme.text.toList)
      rw [rewriteFrom, Text.isBlank_append, tail, List.all_cons]
      split
      · rename_i free
        have name := identifiers lexeme List.mem_cons_self free.1
        rw [shown _ name, name]
      · rfl

theorem isBlank_rewrite
    (shown : ∀ name, Text.isBlank name = false → Text.isBlank (replace name) = false)
    (code : String) : Text.isBlank (rewrite replace code) = Text.isBlank code := by
  have identifiers : ∀ lexeme ∈ lex code, lexeme.kind = .identifier →
      Text.isBlank lexeme.text = false := fun _ member => isBlank_of_identifier member
  rw [rewrite, isBlank_rewriteFrom shown identifiers, Text.isBlank, ← flatMap_lex code,
    List.all_flatMap]
  rfl

end Lexeme

theorem RawCode.isBlank_joined_of_isEmpty {code : RawCode} (hollow : code.isEmpty = true) :
    Text.isBlank code.joined = true := by
  cases code with
  | empty => rfl
  | single s =>
      obtain rfl : s = "" := by simpa [isEmpty] using hollow
      rfl
  | lines ls =>
      have each : ∀ line ∈ ls, line = "" := by simpa [isEmpty] using hollow
      rw [joined, Text.isBlank_joinLines, List.all_eq_true]
      intro line member
      rw [each line member]
      rfl

namespace Tree

variable {tree : Tree} {registry : Registry} {node : Node}

theorem isBlank_nodeVariable (member : node ∈ tree.nodes) :
    Text.isBlank (tree.nodeVariable node.identifier) = false :=
  (Variables.isName_of_node? (node?_nodeVariable member)).isBlank

theorem WellFormed.isBlank_inputValue (wellFormed : tree.WellFormed registry) (socket : Socket) :
    Text.isBlank (tree.inputValue node socket) = false := by
  unfold inputValue
  cases linked : tree.inputLink? node.identifier socket.identifier with
  | none => exact socket.isBlank_literal
  | some link =>
      have source := wellFormed.output?_source (List.mem_of_find?_eq_some linked)
      exact (Variables.isName_of_output? source).isBlank

theorem WellFormed.isBlank_replacement (wellFormed : tree.WellFormed registry)
    (member : node ∈ tree.nodes) {name : String} (shown : Text.isBlank name = false) :
    Text.isBlank (tree.replacement node name) = false := by
  rcases tree.tokenOf_cases node name with ⟨socket, -, -, value⟩ | ⟨socket, inside, -, value⟩ |
    ⟨-, value⟩ | ⟨-, value⟩
  · rw [value]
    exact wellFormed.isBlank_inputValue socket
  · rw [value]
    exact (Variables.isName_of_output? (output?_outputVariable member inside)).isBlank
  · rw [value]
    exact isBlank_nodeVariable member
  · rw [value]
    exact shown

/-! ### The lines of a node -/

theorem isBlank_procedureCall :
    Text.isBlank (Linking.lineText tree (Variables.ofTree tree) node
      (Assembly.procedureCall node)) = false := by
  change Text.isBlank ((Assembly.procedureCall node).render _) = false
  rw [Assembly.procedureCall, Fragment.render_ofTokens (tokenText_keepsText _), Text.isBlank_join,
    List.all_eq_false]
  exact ⟨".execute(", List.mem_map.mpr ⟨.text ".execute(", by simp, rfl⟩, by decide⟩

/-- The lines of a node show nothing if its code is inline and blank, and only then. -/
theorem WellFormed.isBlank_codeLines_iff (wellFormed : tree.WellFormed registry)
    (member : node ∈ tree.nodes) :
    (∀ line ∈ tree.codeLines registry node, Text.isBlank line = true) ↔
      ∃ code, tree.contribution? registry node = some (.raw code) ∧
        Text.isBlank code.joined = true := by
  obtain ⟨kind, registered⟩ := wellFormed.registered node member
  rw [codeLines, fragments_of_kind? registered, contribution?_of_kind? registered]
  cases kind.code node (.ofNode tree node) with
  | procedure => simp [Assembly.assemble, isBlank_procedureCall]
  | raw code =>
      rw [Assembly.assemble, wellFormed.map_lineText_rawLines member code, contributionLines]
      split
      · rename_i hollow
        simp [RawCode.isBlank_joined_of_isEmpty hollow]
      · rw [← List.all_eq_true, Text.all_isBlank_lines,
          Lexeme.isBlank_rewrite fun _ => wellFormed.isBlank_replacement member]
        simp

theorem refersToSelf_eq_false (member : node ∈ tree.nodes)
    (blank : ∀ line ∈ tree.codeLines registry node, Text.isBlank line = true) :
    tree.refersToSelf registry node = false := by
  rw [refersToSelf, List.any_eq_false]
  intro fragment inside refers
  have line := blank _ (List.mem_map_of_mem inside)
  rw [Linking.lineText, Text.isBlank_join, List.all_map, List.all_eq_true] at line
  have shown := line .self (List.contains_iff_mem.mp refers)
  simp [Linking.tokenText, Linking.nodeVariable, node?_nodeVariable member,
    isBlank_nodeVariable member] at shown

end Tree

end FrameGraph
