import FrameGraph.Code.Assembly
import FrameGraph.Proofs.TextLines
import Mathlib.Data.List.Basic

/-!
Replacing the names in code. Main statements: names told apart lexeme by lexeme are replaced in one
pass over the code, and no newline is gained or lost if no name is replaced by a text with newlines.
-/

namespace FrameGraph.Lexeme

/-- The lexemes after the text `before`. An identifier is replaced unless the character in front of
it is a dot; everything else stays. -/
def rewriteFrom (replace : String → String) (before : List Char) : List Lexeme → String
  | [] => ""
  | lexeme :: rest =>
    (if lexeme.kind = .identifier ∧ before.getLast? ≠ some '.' then replace lexeme.text
      else lexeme.text) ++
      rewriteFrom replace (before ++ lexeme.text.toList) rest

def rewrite (replace : String → String) (code : String) : String :=
  rewriteFrom replace [] (lex code)

theorem text_ne_nil_of_mem_lexChars {cs : List Char} {lexeme : Lexeme}
    (member : lexeme ∈ lexChars cs) : lexeme.text.toList ≠ [] := by
  fun_induction lexChars cs with
  | case1 => simp at member
  | case2 c rest ih =>
      rcases List.mem_cons.mp member with rfl | member
      · simp
      · exact ih member

theorem map_mapNames {α β : Type} (convert keep : String → α) (write : α → β) (afterDot : Bool)
    (lexemes : List Lexeme) :
    (mapNames convert keep afterDot lexemes).map write =
      mapNames (fun text => write (convert text)) (fun text => write (keep text)) afterDot
        lexemes := by
  induction lexemes generalizing afterDot with
  | nil => rfl
  | cons lexeme rest ih =>
      simp only [mapNames, List.map_cons, ih]
      split <;> rfl

/-- A lexeme is never empty, so its last character is the one in front of the next. -/
theorem join_mapNames (replace : String → String) {lexemes : List Lexeme}
    (nonempty : ∀ lexeme ∈ lexemes, lexeme.text.toList ≠ []) (before : List Char) :
    String.join (mapNames replace id (before.getLast? == some '.') lexemes) =
      rewriteFrom replace before lexemes := by
  induction lexemes generalizing before with
  | nil => rfl
  | cons lexeme rest ih =>
      have last := List.getLast?_append_of_ne_nil before (nonempty lexeme List.mem_cons_self)
      have tail := ih (fun other member => nonempty other (List.mem_cons_of_mem _ member))
        (before ++ lexeme.text.toList)
      rw [last] at tail
      simp only [mapNames, rewriteFrom, String.join_cons, endsWithDot, tail]
      congr 1
      cases lexeme.kind <;> simp [id]

theorem join_map_mapNames_lex {α : Type} (convert keep : String → α) (write : α → String)
    (kept : ∀ text, write (keep text) = text) (code : String) :
    String.join ((mapNames convert keep false (lex code)).map write) =
      rewrite (fun name => write (convert name)) code := by
  have keeps : (fun text => write (keep text)) = id := funext kept
  rw [map_mapNames, keeps]
  exact join_mapNames _ (fun _ member => text_ne_nil_of_mem_lexChars member) []

theorem mem_mapNames {α : Type} {convert keep : String → α} {afterDot : Bool}
    {lexemes : List Lexeme} {a : α} (member : a ∈ mapNames convert keep afterDot lexemes) :
    ∃ text, a = convert text ∨ a = keep text := by
  induction lexemes generalizing afterDot with
  | nil => simp [mapNames] at member
  | cons lexeme rest ih =>
      rcases List.mem_cons.mp member with rfl | member
      · refine ⟨lexeme.text, ?_⟩
        split
        · exact .inl rfl
        · exact .inr rfl
      · exact ih member

/-! Identifiers hold no newline, so rewriting keeps the lines of the code apart as they are. -/

theorem isIdentifierPart_of_start {c : Char} (start : isIdentifierStart c = true) :
    isIdentifierPart c = true := by
  rw [isIdentifierStart, Bool.or_eq_true] at start
  rw [isIdentifierPart, Text.isAlphanumeric, Bool.or_eq_true, Bool.or_eq_true]
  exact start.imp_right .inl

theorem isIdentifierStart_of_splitFirst {c : Char} {rest : List Char}
    (identifier : (splitFirst c rest).1 = .identifier) : isIdentifierStart c = true := by
  unfold splitFirst at identifier
  split at identifier
  · assumption
  · split at identifier
    · contradiction
    · split at identifier <;> contradiction

theorem forall_isIdentifierPart {c : Char} {rest : List Char}
    (identifier : (splitFirst c rest).1 = .identifier) :
    ∀ d ∈ c :: (splitFirst c rest).2.1, isIdentifierPart d = true := by
  have start := isIdentifierStart_of_splitFirst identifier
  intro d member
  rw [splitFirst, if_pos start] at member
  rcases List.mem_cons.mp member with rfl | member
  · exact isIdentifierPart_of_start start
  · exact List.all_eq_true.mp List.all_takeWhile d member

theorem isLine_of_identifier {cs : List Char} {lexeme : Lexeme} (member : lexeme ∈ lexChars cs)
    (identifier : lexeme.kind = .identifier) : Text.IsLine lexeme.text := by
  fun_induction lexChars cs with
  | case1 => simp at member
  | case2 c rest ih =>
      rcases List.mem_cons.mp member with rfl | member
      · apply Text.isLine_of_forall isIdentifierPart (by decide)
        rw [String.toList_ofList]
        exact forall_isIdentifierPart identifier
      · exact ih member

theorem count_newline_rewriteFrom {replace : String → String}
    (single : ∀ name, Text.IsLine name → Text.IsLine (replace name)) {lexemes : List Lexeme}
    (identifiers : ∀ lexeme ∈ lexemes, lexeme.kind = .identifier → Text.IsLine lexeme.text)
    (before : List Char) :
    (rewriteFrom replace before lexemes).toList.count '\n' =
      (lexemes.flatMap (·.text.toList)).count '\n' := by
  induction lexemes generalizing before with
  | nil => rfl
  | cons lexeme rest ih =>
      have tail := ih (fun other member => identifiers other (List.mem_cons_of_mem _ member))
        (before ++ lexeme.text.toList)
      rw [rewriteFrom, String.toList_append, List.count_append, tail, List.flatMap_cons,
        List.count_append]
      congr 1
      split
      · rename_i free
        have name := identifiers lexeme List.mem_cons_self free.1
        rw [List.count_eq_zero_of_not_mem (single _ name), List.count_eq_zero_of_not_mem name]
      · rfl

theorem count_newline_rewrite {replace : String → String}
    (single : ∀ name, Text.IsLine name → Text.IsLine (replace name)) (code : String) :
    (rewrite replace code).toList.count '\n' = code.toList.count '\n' := by
  have identifiers : ∀ lexeme ∈ lex code, lexeme.kind = .identifier → Text.IsLine lexeme.text :=
    fun _ member => isLine_of_identifier member
  rw [rewrite, count_newline_rewriteFrom single identifiers, flatMap_lex]

end FrameGraph.Lexeme
