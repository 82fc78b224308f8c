import FrameGraph.Proofs.CodeNames
import FrameGraph.Proofs.DistinctLiterals
import FrameGraph.Proofs.NameMarking
import FrameGraph.Proofs.Segmentation

/-!
The names that literals mention. Main statements: they are among six words of the host, whatever a
value holds, and code stays as it is where no name of it is replaced.
-/

namespace FrameGraph

open Lexeme

namespace Lexeme

structure IsNumber (s : String) : Prop where
  head : ∃ c body, s.toList = c :: body ∧ c.isDigit = true
  part : ∀ c ∈ s.toList, isNumberPart c = true

theorem IsNumber.append {s t : String} (number : IsNumber s)
    (part : ∀ c ∈ t.toList, isNumberPart c = true) : IsNumber (s ++ t) := by
  obtain ⟨c, body, cs, digit⟩ := number.head
  refine ⟨⟨c, body ++ t.toList, by rw [String.toList_append, cs, List.cons_append], digit⟩, ?_⟩
  intro d member
  rw [String.toList_append, List.mem_append] at member
  exact member.elim (number.part d) (part d)

theorem IsNumber.closed {s : String} (number : IsNumber s) : Closed s :=
  closed_of_plain fun c member => isQuote_eq_false_of_part (number.part c member)

theorem IsNumber.names_eq_nil {s : String} (number : IsNumber s) : names s = [] := by
  obtain ⟨c, body, cs, digit⟩ := number.head
  have parts : ∀ d ∈ body, isNumberPart d = true := fun d member =>
    number.part d (cs ▸ List.mem_cons_of_mem c member)
  have split : splitFirst c body = (.number, body, []) := by
    have whole : splitWhile isNumberPart (body ++ []) = (body, []) :=
      splitWhile_boundary parts (by simp)
    rw [List.append_nil] at whole
    rw [splitFirst_of_isDigit digit, whole]
  rw [names, lex, cs, namesFrom_cons split, if_neg (by simp), lexChars, namesFrom, List.append_nil]

theorem rewriteFrom_eq_of_namesFrom {replace other : String → String} {before : List Char}
    {lexemes : List Lexeme} (same : ∀ name ∈ namesFrom before lexemes, replace name = other name) :
    rewriteFrom replace before lexemes = rewriteFrom other before lexemes := by
  induction lexemes generalizing before with
  | nil => rfl
  | cons lexeme rest ih =>
      rw [namesFrom, List.forall_mem_append] at same
      obtain ⟨head, tail⟩ := same
      rw [rewriteFrom, rewriteFrom, ih tail]
      split
      · rename_i free
        rw [if_pos free, List.forall_mem_singleton] at head
        rw [head]
      · rfl

/-- Code is not changed where each of its names stands for itself. -/
theorem rewrite_eq_self {replace : String → String} {code : String}
    (fixed : ∀ name ∈ names code, replace name = name) : rewrite replace code = code :=
  (rewriteFrom_eq_of_namesFrom fixed).trans (rewrite_self code)

end Lexeme

theorem Digits.isNumber {s : String} (digits : Digits s) (nonempty : s ≠ "") : IsNumber s := by
  obtain ⟨c, body, cs⟩ := List.exists_cons_of_ne_nil (show s.toList ≠ [] by simpa using nonempty)
  refine ⟨⟨c, body, cs, digits c (by simp [cs])⟩, fun d member => ?_⟩
  exact isNumberPart_of_part (isIdentifierPart_of_isDigit (digits d member))

theorem Numeral.Allowed.isNumber_whole {n : Numeral} (allowed : n.Allowed) :
    IsNumber (n.whole ++ fractionText n.fraction) := by
  refine (allowed.decimal.whole.isNumber allowed.whole).append fun c member => ?_
  cases fraction : n.fraction with
  | none => simp [fraction, fractionText] at member
  | some digits =>
      rw [fraction, fractionText, String.toList_append, List.mem_append] at member
      rcases member with point | digit
      · obtain rfl : c = '.' := by simpa using point
        decide
      · exact isNumberPart_of_part
          (isIdentifierPart_of_isDigit (allowed.decimal.fraction digits fraction c digit))

theorem Numeral.Allowed.names_unsigned {n : Numeral} (allowed : n.Allowed) :
    names (n.whole ++ fractionText n.fraction ++ exponentText n.exponent) = [] := by
  have whole := allowed.isNumber_whole
  cases power : n.exponent with
  | none =>
      rw [exponentText, String.append_empty]
      exact whole.names_eq_nil
  | some e =>
      obtain ⟨digits, signs⟩ := allowed.decimal.exponent e power
      have number := digits.isNumber (allowed.exponent e power)
      have letter : ∀ c ∈ "e".toList, isNumberPart c = true := by
        change ∀ c ∈ ['e'], isNumberPart c = true
        exact List.forall_mem_singleton.mpr rfl
      have started := whole.append letter
      cases sign : e.sign with
      | none =>
          rw [exponentText, sign, String.append_empty, ← String.append_assoc]
          exact (started.append number.part).names_eq_nil
      | some c =>
          have plain : startsLexeme c = false ∧ isIdentifierPart c = false := by
            rcases signs c sign with rfl | rfl <;> decide
          have other : ∀ d ∈ (String.singleton c).toList, startsLexeme d = false := by
            rw [String.toList_singleton, List.forall_mem_singleton]
            exact plain.1
          have stops (d : Char) (head : (String.singleton c ++ e.digits).toList.head? = some d) :
              isIdentifierPart d = false := by
            obtain rfl : c = d := by simpa using head
            exact plain.2
          have parts := names_append_subset started.closed stops
          have behind := names_plain_append_subset other e.digits
          rw [started.names_eq_nil, List.nil_append] at parts
          rw [number.names_eq_nil] at behind
          have regroup :
              n.whole ++ fractionText n.fraction ++ ("e" ++ String.singleton c ++ e.digits) =
                n.whole ++ fractionText n.fraction ++ "e" ++ (String.singleton c ++ e.digits) := by
            simp only [String.append_assoc]
          rw [exponentText, sign, regroup]
          exact List.subset_nil.mp (List.Subset.trans parts behind)

theorem Numeral.Allowed.names_eq_nil {n : Numeral} (allowed : n.Allowed) : names n.text = [] := by
  have front : ∀ c ∈ (if n.negative then "-" else "").toList, startsLexeme c = false := by
    have minus : ∀ c ∈ "-".toList, startsLexeme c = false := plain_ofList rfl
    have nothing : ∀ c ∈ "".toList, startsLexeme c = false := plain_ofList rfl
    split
    · exact minus
    · exact nothing
  have behind := names_plain_append_subset front
    (n.whole ++ fractionText n.fraction ++ exponentText n.exponent)
  rw [allowed.names_unsigned, List.subset_nil] at behind
  rw [text_eq]
  simpa only [String.append_assoc] using behind

def literalWords : List String :=
  ["None", "True", "False", "float", "mathutils", "bmesh"]

theorem names_floatLiteral_subset (x : Binary64) : names (floatLiteral x) ⊆ literalWords := by
  have word : names "float('nan')" ⊆ literalWords ∧ names "float('inf')" ⊆ literalWords ∧
      names "float('-inf')" ⊆ literalWords := by
    decide +kernel
  unfold floatLiteral
  split
  · rw [(hostLayout.allowed_ofBinary64 x).names_eq_nil]
    exact List.nil_subset _
  · split
    · exact word.1
    · split
      · exact word.2.2
      · exact word.2.1

namespace Value

theorem closed_of_mem_floats (xs : List Binary64) :
    ∀ part ∈ xs.map floatLiteral, Closed part :=
  List.forall_mem_map.mpr fun x _ => closed_floatLiteral x

theorem names_subset_of_mem_floats (xs : List Binary64) :
    ∀ part ∈ xs.map floatLiteral, names part ⊆ literalWords :=
  List.forall_mem_map.mpr fun x _ => names_floatLiteral_subset x

theorem names_call_floats_subset (function : String) (closed : Closed function)
    (own : names function ⊆ literalWords) (xs : List Binary64) :
    names (function ++ "(" ++ floatList xs ++ "))") ⊆ literalWords := by
  have closes : ∀ c ∈ ")".toList, startsLexeme c = false := plain_ofList rfl
  have stops (d : Char) (head : ")".toList.head? = some d) : isIdentifierPart d = false := by
    obtain rfl : ')' = d := Option.some.inj head
    decide
  have whole : Closed (function ++ "(" ++ floatList xs ++ ")") :=
    ((closed.append (by decide)).append (closed_floatList xs)).append (by decide)
  have brackets : "))" = ")" ++ ")" := rfl
  have outer := names_append_subset whole stops
  have inner := names_call_subset closed (closed_of_mem_floats xs)
  rw [names_of_plain closes, List.append_nil] at outer
  rw [brackets, ← String.append_assoc]
  intro name member
  rcases List.mem_append.mp (inner (outer member)) with named | named
  · exact own named
  · obtain ⟨part, inside, named⟩ := List.mem_flatMap.mp named
    exact names_subset_of_mem_floats xs part inside named

theorem names_bracketed_subset (bracket : LiteralBracket)
    (plain : bracket = .list ∨ bracket = .color) {parts : List String}
    (closed : ∀ part ∈ parts, Closed part) (own : ∀ part ∈ parts, names part ⊆ literalWords) :
    names (bracket.opening ++ ", ".intercalate parts ++ bracket.closing) ⊆ literalWords := by
  have opened : ∀ c ∈ bracket.opening.toList, startsLexeme c = false := by
    rcases plain with rfl | rfl <;> exact plain_ofList rfl
  have closes : ∀ c ∈ bracket.closing.toList, startsLexeme c = false := by
    rcases plain with rfl | rfl <;> exact plain_ofList rfl
  have stops (d : Char) (head : bracket.closing.toList.head? = some d) :
      isIdentifierPart d = false := by
    rcases plain with rfl | rfl <;> obtain rfl := Option.some.inj head <;> decide
  have inside : Closed (", ".intercalate parts) := closed_intercalate (by decide) closed
  have inner := names_enclosed_subset opened inside closes stops
  intro name member
  obtain ⟨part, inside, named⟩ :=
    List.mem_flatMap.mp (names_intercalate_subset closed (inner member))
  exact own part inside named

/-- Whatever strings hold and however deep lists are nested, a literal mentions only words of the
host. -/
theorem names_literal_subset (value : Value) : names value.literal ⊆ literalWords := by
  have words : names "None" ⊆ literalWords ∧ names "True" ⊆ literalWords ∧
      names "False" ⊆ literalWords := by
    decide +kernel
  cases value with
  | none => exact words.1
  | float x => exact names_floatLiteral_subset x
  | integer n =>
      have text : names (Value.integer n).literal = [] := by
        rw [← (Numeral.allowed_ofInt n.toInt).names_eq_nil, Numeral.text_ofInt]
        rfl
      rw [text]
      exact List.nil_subset _
  | boolean b =>
      cases b with
      | false => exact words.2.2
      | true => exact words.2.1
  | string s =>
      change names (stringLiteral s) ⊆ literalWords
      rw [names_stringLiteral]
      exact List.nil_subset _
  | vector x y z =>
      exact names_call_floats_subset "mathutils.Vector(" (by decide)
        (by decide +kernel) [x, y, z]
  | euler x y z =>
      exact names_call_floats_subset "mathutils.Euler(" (by decide)
        (by decide +kernel) [x, y, z]
  | quaternion w x y z =>
      exact names_call_floats_subset "mathutils.Quaternion(" (by decide)
        (by decide +kernel) [w, x, y, z]
  | color r g b a =>
      exact names_bracketed_subset .color (.inr rfl) (closed_of_mem_floats [r, g, b, a])
        (names_subset_of_mem_floats [r, g, b, a])
  | list items =>
      have own : ∀ part ∈ literals items, names part ⊆ literalWords := by
        rw [literals_eq_map]
        exact List.forall_mem_map.mpr fun item _ => names_literal_subset item
      exact names_bracketed_subset .list (.inl rfl) (closed_of_mem_literals items) own

end Value

theorem Socket.names_literal_subset (socket : Socket) : names socket.literal.1 ⊆ literalWords := by
  unfold Socket.literal
  split
  · decide +kernel
  · exact socket.value.names_literal_subset

end FrameGraph
