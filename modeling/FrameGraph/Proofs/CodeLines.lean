import FrameGraph.Proofs.LexemeBoundaries

/-!
Code of several lines. Main statement: if no string literal goes on beyond its line, the lines are
rewritten one by one.
-/

namespace FrameGraph.Lexeme

def Closed (code : String) : Prop :=
  LiteralState.outside.run code.toList = .outside

instance (code : String) : Decidable (Closed code) :=
  inferInstanceAs (Decidable (_ = _))

theorem Closed.append {s t : String} (front : Closed s) (back : Closed t) : Closed (s ++ t) := by
  rw [Closed, String.toList_append, LiteralState.run_append, front]
  exact back

theorem closed_of_plain {s : String} (plain : ∀ c ∈ s.toList, isQuote c = false) : Closed s :=
  LiteralState.run_outside plain

def Unquoted (s : String) : Prop :=
  ∀ c ∈ s.toList, c ≠ '\n' ∧ isQuote c = false

theorem Unquoted.isLine {s : String} (unquoted : Unquoted s) : Text.IsLine s :=
  fun member => (unquoted _ member).1 rfl

theorem Unquoted.closed {s : String} (unquoted : Unquoted s) : Closed s :=
  closed_of_plain fun c member => (unquoted c member).2

theorem unquoted_ofList {cs : List Char} (test : cs.all (fun c => c != '\n' && !isQuote c) = true) :
    Unquoted (String.ofList cs) := by
  intro c member
  rw [String.toList_ofList] at member
  simpa using List.all_eq_true.mp test c member

theorem plain_ofList {cs : List Char} (test : cs.all (fun c => !startsLexeme c) = true) :
    ∀ c ∈ (String.ofList cs).toList, startsLexeme c = false := by
  intro c member
  rw [String.toList_ofList] at member
  simpa using List.all_eq_true.mp test c member

theorem closed_intercalate {separator : String} (separates : Closed separator) {parts : List String}
    (each : ∀ part ∈ parts, Closed part) : Closed (separator.intercalate parts) := by
  induction parts with
  | nil => exact closed_of_plain (by simp)
  | cons first rest ih =>
      have head := each first List.mem_cons_self
      have tail := ih fun part member => each part (List.mem_cons_of_mem _ member)
      by_cases last : rest = []
      · simpa [last] using head
      · rw [String.intercalate_cons_of_ne_nil last]
        exact (head.append separates).append tail

variable {replace : String → String}

theorem isLine_rewrite (single : ∀ name, Text.IsLine name → Text.IsLine (replace name))
    {code : String} (line : Text.IsLine code) : Text.IsLine (rewrite replace code) := by
  have same := count_newline_rewrite single code
  rw [List.count_eq_zero_of_not_mem line] at same
  exact List.count_eq_zero.mp same

/-- A text behind which code starts anew: no lexeme but other text starts or goes on with its
characters. -/
structure IsSeparator (s : String) : Prop where
  nonempty : s ≠ ""
  plain : ∀ c ∈ s.toList, startsLexeme c = false
  stops : ∀ c ∈ s.toList, isNumberPart c = false

theorem isSeparator_ofList {c : Char} {cs : List Char}
    (test : (c :: cs).all (fun d => !startsLexeme d && !isNumberPart d) = true) :
    IsSeparator (String.ofList (c :: cs)) := by
  have each (d : Char) (member : d ∈ c :: cs) :
      startsLexeme d = false ∧ isNumberPart d = false := by
    simpa using List.all_eq_true.mp test d member
  refine ⟨by simp, ?_, ?_⟩ <;> rw [String.toList_ofList]
  · exact fun d member => (each d member).1
  · exact fun d member => (each d member).2

theorem IsSeparator.not_dotted {s : String} (separator : IsSeparator s) (before : List Char) :
    (before ++ s.toList).getLast? ≠ some '.' := by
  have nonempty : s.toList ≠ [] := by simpa using separator.nonempty
  rw [List.getLast?_append_of_ne_nil _ nonempty]
  intro dotted
  exact absurd (separator.stops '.' (List.mem_of_getLast? dotted)) (by decide)

/-- What stands in front of a separator and what follows it are rewritten as they are on their
own. -/
theorem rewrite_append_separator {front separator : String} (closed : Closed front)
    (separates : IsSeparator separator) (rest : String) :
    rewrite replace (front ++ separator ++ rest) =
      rewrite replace front ++ separator ++ rewrite replace rest := by
  have stops (d : Char) (head : (separator.toList ++ rest.toList).head? = some d) :
      isNumberPart d = false := by
    obtain ⟨c, cs, text⟩ := List.exists_cons_of_ne_nil
      (show separator.toList ≠ [] by simpa using separates.nonempty)
    obtain rfl : c = d := by simpa [text] using head
    exact separates.stops c (by simp [text])
  have undotted : (front.toList ++ separator.toList).getLast? = some '.' ↔
      ([] : List Char).getLast? = some '.' :=
    iff_of_false (separates.not_dotted front.toList) (by simp)
  calc
    rewrite replace (front ++ separator ++ rest)
        = rewriteFrom replace [] (lexChars (front.toList ++
            (separator.toList ++ rest.toList))) := by
          rw [rewrite, lex, String.toList_append, String.toList_append, List.append_assoc]
    _ = rewriteFrom replace [] (lexChars front.toList) ++
          rewriteFrom replace ([] ++ front.toList) (lexChars (separator.toList ++ rest.toList)) :=
          rewriteFrom_append closed stops []
    _ = rewrite replace front ++ (separator ++ rewriteFrom replace
          (front.toList ++ separator.toList) (lexChars rest.toList)) := by
          rw [rewriteFrom_append_plain separates.plain, List.nil_append, String.ofList_toList]
          rfl
    _ = rewrite replace front ++ separator ++ rewrite replace rest := by
          rw [rewriteFrom_congr undotted, String.append_assoc]
          rfl

theorem rewrite_append_newline {line : String} (closed : Closed line) (rest : String) :
    rewrite replace (line ++ "\n" ++ rest) =
      rewrite replace line ++ "\n" ++ rewrite replace rest :=
  rewrite_append_separator closed (isSeparator_ofList rfl) rest

theorem rewrite_joinLines {lines : List String} (closed : ∀ line ∈ lines, Closed line) :
    rewrite replace (Text.joinLines lines) = Text.joinLines (lines.map (rewrite replace)) := by
  induction lines with
  | nil => simp [Text.joinLines, rewrite, lex, lexChars, rewriteFrom]
  | cons first rest ih =>
      cases rest with
      | nil => simp
      | cons second rest =>
          have head := closed first List.mem_cons_self
          have tail := ih fun line member => closed line (List.mem_cons_of_mem _ member)
          simp only [Text.joinLines, List.map_cons, String.intercalate_cons_cons] at tail ⊢
          rw [rewrite_append_newline head, tail]

def IsIdentifier (s : String) : Prop :=
  ∃ c body, s.toList = c :: body ∧ isIdentifierStart c = true ∧
    ∀ d ∈ body, isIdentifierPart d = true

theorem isIdentifier_ofList {c : Char} {cs : List Char} (start : isIdentifierStart c = true)
    (part : cs.all isIdentifierPart = true) : IsIdentifier (String.ofList (c :: cs)) :=
  ⟨c, cs, String.toList_ofList, start, List.all_eq_true.mp part⟩

theorem IsIdentifier.append {s t : String} (identifier : IsIdentifier s)
    (part : ∀ c ∈ t.toList, isIdentifierPart c = true) : IsIdentifier (s ++ t) := by
  obtain ⟨c, body, cs, start, inside⟩ := identifier
  refine ⟨c, body ++ t.toList, by rw [String.toList_append, cs, List.cons_append], start, ?_⟩
  intro d member
  exact (List.mem_append.mp member).elim (inside d) (part d)

theorem IsIdentifier.part {s : String} (identifier : IsIdentifier s) :
    ∀ c ∈ s.toList, isIdentifierPart c = true := by
  obtain ⟨c, body, cs, start, inside⟩ := identifier
  intro d member
  rw [cs, List.mem_cons] at member
  rcases member with rfl | member
  · exact isIdentifierPart_of_start start
  · exact inside d member

theorem IsIdentifier.isLine {s : String} (identifier : IsIdentifier s) : Text.IsLine s :=
  Text.isLine_of_forall isIdentifierPart (by decide) identifier.part

theorem IsIdentifier.closed {s : String} (identifier : IsIdentifier s) : Closed s :=
  closed_of_plain fun c member =>
    isQuote_eq_false_of_part (isNumberPart_of_part (identifier.part c member))

theorem IsIdentifier.run_inside {s : String} (identifier : IsIdentifier s) :
    (LiteralState.inside '"').run s.toList = .inside '"' := by
  have stays (cs : List Char) (part : ∀ c ∈ cs, isIdentifierPart c = true) :
      (LiteralState.inside '"').run cs = .inside '"' := by
    induction cs with
    | nil => rfl
    | cons c cs ih =>
        have head := part c List.mem_cons_self
        have backslash : c ≠ '\\' := by
          rintro rfl
          exact absurd head (by decide)
        have quote : c ≠ '"' := by
          rintro rfl
          exact absurd head (by decide)
        rw [LiteralState.run_cons, LiteralState.step, if_neg backslash, if_neg quote]
        exact ih fun d member => part d (List.mem_cons_of_mem _ member)
  exact stays s.toList identifier.part

theorem rewrite_of_isIdentifier {s : String} (identifier : IsIdentifier s) :
    rewrite replace s = replace s := by
  obtain ⟨c, body, cs, start, inside⟩ := identifier
  have whole : splitWhile isIdentifierPart (body ++ []) = (body, []) :=
    splitWhile_boundary inside (by simp)
  have split : splitFirst c body = (.identifier, body, []) := by
    rw [List.append_nil] at whole
    rw [splitFirst, if_pos start, whole]
  rw [rewrite, lex, cs, rewriteFrom_cons split, if_pos ⟨rfl, by simp⟩, ← cs, String.ofList_toList,
    lexChars, rewriteFrom, String.append_empty]

theorem rewrite_assignment {target : String} (identifier : IsIdentifier target) (value : String) :
    ∃ rewritten, rewrite replace (target ++ " = " ++ value) =
      replace target ++ " = " ++ rewritten := by
  refine ⟨rewrite replace value, ?_⟩
  rw [rewrite_append_separator identifier.closed (isSeparator_ofList rfl),
    rewrite_of_isIdentifier identifier]

end FrameGraph.Lexeme
