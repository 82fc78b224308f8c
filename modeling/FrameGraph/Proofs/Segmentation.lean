import FrameGraph.Proofs.LexemeBoundaries
import Mathlib.Data.List.Chain

/-!
What the lexemes of a code are, said without the lexer. Main statement: there is one way to cut a
code into words that are as long as they can be, string literals that end at the first quote that is
not escaped, and other text that is not cut further; and the lexer finds it.
-/

namespace FrameGraph.Lexeme

/-- Whether a character behind the text is escaped: the text ends with an odd number of
backslashes. -/
def Escapes (front : List Char) : Prop :=
  (front.reverse.takeWhile (· = '\\')).length % 2 = 1

instance (front : List Char) : Decidable (Escapes front) :=
  inferInstanceAs (Decidable (_ = _))

/-- Whether every occurrence of the quote in the text is escaped. -/
def AllEscaped (quote : Char) (text : List Char) : Prop :=
  ∀ front back, text = front ++ quote :: back → Escapes front

/-- Whether a lexeme of the kind may have the text in front of what follows. -/
inductive Spells : LexemeKind → List Char → List Char → Prop
  | identifier {c : Char} {body after : List Char} (start : isIdentifierStart c = true)
      (inside : ∀ d ∈ body, isIdentifierPart d = true)
      (ends : ∀ d, after.head? = some d → isIdentifierPart d = false) :
      Spells .identifier (c :: body) after
  | number {c : Char} {body after : List Char} (digit : c.isDigit = true)
      (inside : ∀ d ∈ body, isNumberPart d = true)
      (ends : ∀ d, after.head? = some d → isNumberPart d = false) :
      Spells .number (c :: body) after
  /-- A literal ends at the first quote of its kind that is not escaped. -/
  | closedLiteral {quote : Char} {body after : List Char} (isQuote : isQuote quote = true)
      (escaped : AllEscaped quote body) (closes : ¬ Escapes body) :
      Spells .stringLiteral (quote :: (body ++ [quote])) after
  /-- Without such a quote it is the end of the code. -/
  | openLiteral {quote : Char} {body : List Char} (isQuote : isQuote quote = true)
      (escaped : AllEscaped quote body) : Spells .stringLiteral (quote :: body) []
  | other {text after : List Char} (plain : ∀ d ∈ text, startsLexeme d = false) :
      Spells .other text after

/-- A code cut into lexemes. -/
structure Segmentation (code : List Char) (lexemes : List Lexeme) : Prop where
  joined : lexemes.flatMap (·.text.toList) = code
  nonempty : ∀ lexeme ∈ lexemes, lexeme.text ≠ ""
  spelled : ∀ before lexeme after, lexemes = before ++ lexeme :: after →
    Spells lexeme.kind lexeme.text.toList (after.flatMap (·.text.toList))
  apart : lexemes.IsChain fun first second => ¬ (first.kind = .other ∧ second.kind = .other)

/-! ### Escapes -/

theorem not_escapes_nil : ¬ Escapes [] := by
  decide

theorem escapes_cons {c : Char} (plain : c ≠ '\\') (front : List Char) :
    Escapes (c :: front) ↔ Escapes front := by
  unfold Escapes
  rw [List.reverse_cons, List.takeWhile_append]
  split
  · rename_i whole
    simp [plain, whole]
  · rfl

theorem escapes_pair (c : Char) (front : List Char) :
    Escapes ('\\' :: c :: front) ↔ Escapes front := by
  unfold Escapes
  rw [List.reverse_cons, List.reverse_cons, List.append_assoc, List.takeWhile_append]
  split
  · rename_i whole
    by_cases plain : c = '\\'
    · simp [plain, whole]
    · simp [plain, whole]
  · rfl

theorem allEscaped_nil (quote : Char) : AllEscaped quote [] := by
  intro front back cut
  cases front <;> cases cut

theorem allEscaped_cons {quote c : Char} (plain : c ≠ '\\') (other : c ≠ quote)
    {text : List Char} : AllEscaped quote (c :: text) ↔ AllEscaped quote text := by
  constructor
  · intro escaped front back cut
    exact (escapes_cons plain front).mp (escaped (c :: front) back (congrArg (c :: ·) cut))
  · intro escaped front back cut
    cases front with
    | nil => exact absurd (List.cons.inj cut).1 other
    | cons d front =>
        obtain ⟨rfl, rest⟩ := List.cons.inj cut
        exact (escapes_cons plain front).mpr (escaped front back rest)

theorem allEscaped_pair {quote : Char} (plain : quote ≠ '\\') (c : Char) {text : List Char} :
    AllEscaped quote ('\\' :: c :: text) ↔ AllEscaped quote text := by
  constructor
  · intro escaped front back cut
    exact (escapes_pair c front).mp
      (escaped ('\\' :: c :: front) back (congrArg ('\\' :: c :: ·) cut))
  · intro escaped front back cut
    cases front with
    | nil => exact absurd (List.cons.inj cut).1.symm plain
    | cons d front =>
        obtain ⟨rfl, rest⟩ := List.cons.inj cut
        cases front with
        | nil => decide
        | cons e front =>
            obtain ⟨rfl, tail⟩ := List.cons.inj rest
            exact (escapes_pair c front).mpr (escaped front back tail)

theorem AllEscaped.unique {quote : Char} {body other after rest : List Char}
    (escaped : AllEscaped quote body) (closes : ¬ Escapes body)
    (escapedToo : AllEscaped quote other) (closesToo : ¬ Escapes other)
    (same : body ++ quote :: after = other ++ quote :: rest) : body = other ∧ after = rest := by
  rcases List.append_eq_append_iff.mp same with ⟨gap, longer, tail⟩ | ⟨gap, longer, tail⟩
  · cases gap with
    | nil => exact ⟨by simpa using longer.symm, (List.cons.inj tail).2⟩
    | cons c gap =>
        obtain ⟨rfl, -⟩ := List.cons.inj tail
        exact absurd (escapedToo body gap longer) closes
  · cases gap with
    | nil => exact ⟨by simpa using longer, (List.cons.inj tail).2.symm⟩
    | cons c gap =>
        obtain ⟨rfl, -⟩ := List.cons.inj tail
        exact absurd (escaped other gap longer) closesToo

theorem splitLiteral_spec {quote : Char} (plain : quote ≠ '\\') (cs : List Char) :
    (∃ body, (splitLiteral quote cs).1 = body ++ [quote] ∧ AllEscaped quote body ∧
      ¬ Escapes body) ∨ (splitLiteral quote cs = (cs, []) ∧ AllEscaped quote cs) := by
  refine splitLiteral_induction ?nil ?trailing ?escaped ?closing ?inside cs
  case nil => exact .inr ⟨rfl, allEscaped_nil quote⟩
  case trailing =>
    refine .inr ⟨rfl, fun front back split => ?_⟩
    cases front with
    | nil => exact absurd (List.cons.inj split).1.symm plain
    | cons d front => cases front <;> cases (List.cons.inj split).2
  case escaped =>
    rintro c rest body after (⟨inner, whole, escaped, closes⟩ | ⟨whole, escaped⟩)
    · refine .inl ⟨'\\' :: c :: inner, ?_, (allEscaped_pair plain c).mpr escaped, ?_⟩
      · exact congrArg ('\\' :: c :: ·) whole
      · rwa [escapes_pair]
    · obtain ⟨rfl, rfl⟩ := Prod.mk.inj whole
      exact .inr ⟨rfl, (allEscaped_pair plain c).mpr escaped⟩
  case closing => exact fun rest => .inl ⟨[], rfl, allEscaped_nil quote, not_escapes_nil⟩
  case inside =>
    rintro c rest body after escape differs (⟨inner, whole, escaped, closes⟩ | ⟨whole, escaped⟩)
    · refine .inl ⟨c :: inner, congrArg (c :: ·) whole,
        (allEscaped_cons escape differs).mpr escaped, ?_⟩
      rwa [escapes_cons escape]
    · obtain ⟨rfl, rfl⟩ := Prod.mk.inj whole
      exact .inr ⟨rfl, (allEscaped_cons escape differs).mpr escaped⟩

/-! ### The first lexeme -/

theorem isIdentifierStart_eq_false_of_isDigit {c : Char} (digit : c.isDigit = true) :
    isIdentifierStart c = false := by
  simp only [Char.isDigit, Bool.and_eq_true, decide_eq_true_eq, UInt32.le_iff_toNat_le] at digit
  change 48 ≤ c.toNat ∧ c.toNat ≤ 57 at digit
  have ascii : c.toNat < 128 := by omega
  have other : c ≠ '_' := by
    rintro rfl
    exact absurd digit (by decide)
  have digits : ∀ n < 58, 48 ≤ n → (Char.ofNat n).isAlpha = false := by decide
  have letter := digits c.toNat (by omega) digit.1
  rw [Char.ofNat_toNat] at letter
  simp [isIdentifierStart, Text.isAlphabetic_of_ascii ascii, other, letter]

theorem isIdentifierStart_eq_false_of_isQuote {c : Char} (quote : isQuote c = true) :
    isIdentifierStart c = false := by
  rw [← Bool.not_eq_true]
  intro start
  have part := isNumberPart_of_part (isIdentifierPart_of_start start)
  rw [isQuote_eq_false_of_part part] at quote
  contradiction

theorem isDigit_eq_false_of_isQuote {c : Char} (quote : isQuote c = true) : c.isDigit = false := by
  rw [isQuote, Bool.or_eq_true, beq_iff_eq, beq_iff_eq] at quote
  rcases quote with rfl | rfl <;> decide

theorem ne_backslash_of_isQuote {c : Char} (quote : isQuote c = true) : c ≠ '\\' := by
  rintro rfl
  exact absurd quote (by decide)

/-! The lexer's first step by the first character. -/

theorem splitFirst_of_start {c : Char} (start : isIdentifierStart c = true) (rest : List Char) :
    splitFirst c rest = (.identifier, splitWhile isIdentifierPart rest) := by
  rw [splitFirst, if_pos start]

theorem splitFirst_of_isDigit {c : Char} (digit : c.isDigit = true) (rest : List Char) :
    splitFirst c rest = (.number, splitWhile isNumberPart rest) := by
  rw [splitFirst, isIdentifierStart_eq_false_of_isDigit digit, if_neg Bool.false_ne_true,
    if_pos digit]

theorem splitFirst_of_isQuote {c : Char} (quote : isQuote c = true) (rest : List Char) :
    splitFirst c rest = (.stringLiteral, splitLiteral c rest) := by
  rw [splitFirst, isIdentifierStart_eq_false_of_isQuote quote, if_neg Bool.false_ne_true,
    isDigit_eq_false_of_isQuote quote, if_neg Bool.false_ne_true, if_pos quote]

theorem splitFirst_of_plain {c : Char} (plain : startsLexeme c = false) (rest : List Char) :
    splitFirst c rest = (.other, splitWhile (fun d => !startsLexeme d) rest) := by
  simp only [startsLexeme, Bool.or_eq_false_iff] at plain
  rw [splitFirst, plain.1.1, if_neg Bool.false_ne_true, plain.1.2, if_neg Bool.false_ne_true,
    plain.2, if_neg Bool.false_ne_true]

/-- The first lexeme is spelled as its kind asks, and other text is followed by a character that
starts another kind of lexeme. -/
theorem spells_splitFirst (c : Char) (rest : List Char) :
    Spells (splitFirst c rest).1 (c :: (splitFirst c rest).2.1) (splitFirst c rest).2.2 ∧
      ((splitFirst c rest).1 = .other →
        ∀ d, (splitFirst c rest).2.2.head? = some d → startsLexeme d = true) := by
  by_cases start : isIdentifierStart c = true
  · obtain ⟨inside, ends⟩ := forall_splitWhile isIdentifierPart rest
    rw [splitFirst_of_start start]
    exact ⟨.identifier start inside ends, fun other => by contradiction⟩
  by_cases digit : c.isDigit = true
  · obtain ⟨inside, ends⟩ := forall_splitWhile isNumberPart rest
    rw [splitFirst_of_isDigit digit]
    exact ⟨.number digit inside ends, fun other => by contradiction⟩
  by_cases quote : isQuote c = true
  · rw [splitFirst_of_isQuote quote]
    refine ⟨?_, fun other => by contradiction⟩
    rcases splitLiteral_spec (ne_backslash_of_isQuote quote) rest with
      ⟨body, whole, escaped, closes⟩ | ⟨whole, escaped⟩
    · rw [whole]
      exact .closedLiteral quote escaped closes
    · rw [whole]
      exact .openLiteral quote escaped
  · have plain : startsLexeme c = false := by simp [startsLexeme, start, digit, quote]
    obtain ⟨inside, ends⟩ := forall_splitWhile (fun d => !startsLexeme d) rest
    rw [splitFirst_of_plain plain]
    refine ⟨.other ?_, fun _ d head => by simpa using ends d head⟩
    intro d member
    rcases List.mem_cons.mp member with rfl | member
    · exact plain
    · simpa using inside d member

theorem splitFirst_ne_other {c : Char} (starts : startsLexeme c = true) (rest : List Char) :
    (splitFirst c rest).1 ≠ .other := by
  intro other
  have spells := (spells_splitFirst c rest).1
  rw [other] at spells
  cases spells with
  | other plain =>
      rw [plain c List.mem_cons_self] at starts
      contradiction

/-- What is spelled as a kind of lexeme is what the lexer takes, if other text is not cut short. -/
theorem Spells.splitFirst_eq {c : Char} {kind : LexemeKind} {body after : List Char}
    (spells : Spells kind (c :: body) after)
    (next : kind = .other → ∀ d, after.head? = some d → startsLexeme d = true) :
    splitFirst c (body ++ after) = (kind, body, after) := by
  cases spells with
  | identifier start inside ends => rw [splitFirst_of_start start, splitWhile_boundary inside ends]
  | number digit inside ends => rw [splitFirst_of_isDigit digit, splitWhile_boundary inside ends]
  | @closedLiteral quote body after isQuote escaped closes =>
      rw [splitFirst_of_isQuote isQuote, List.append_assoc, List.singleton_append]
      have whole := splitLiteral_append c (body ++ c :: after)
      rcases splitLiteral_spec (ne_backslash_of_isQuote isQuote) (body ++ c :: after) with
        ⟨inner, front, escapedToo, closesToo⟩ | ⟨-, none⟩
      · rw [front, List.append_assoc, List.singleton_append] at whole
        obtain ⟨rfl, tail⟩ := escapedToo.unique closesToo escaped closes whole
        exact Prod.ext rfl (Prod.ext front tail)
      · exact absurd (none body after rfl) closes
  | openLiteral isQuote escaped =>
      rw [splitFirst_of_isQuote isQuote, List.append_nil]
      rcases splitLiteral_spec (ne_backslash_of_isQuote isQuote) body with
        ⟨inner, front, escapedToo, closesToo⟩ | ⟨whole, -⟩
      · have split := splitLiteral_append c body
        rw [front, List.append_assoc, List.singleton_append] at split
        exact absurd (escaped inner _ split.symm) closesToo
      · rw [whole]
  | other plain =>
      rw [List.forall_mem_cons] at plain
      have inside : ∀ d ∈ body, (!startsLexeme d) = true := fun d member => by
        simp [plain.2 d member]
      have ends (d : Char) (head : after.head? = some d) : (!startsLexeme d) = false := by
        simp [next rfl d head]
      rw [splitFirst_of_plain plain.1, splitWhile_boundary inside ends]

/-! ### All lexemes -/

theorem Spells.startsLexeme_eq {kind : LexemeKind} {c : Char} {body after : List Char}
    (spells : Spells kind (c :: body) after) (named : kind ≠ .other) : startsLexeme c = true := by
  cases spells with
  | identifier start => simp [startsLexeme, start]
  | number digit => simp [startsLexeme, digit]
  | closedLiteral isQuote => simp [startsLexeme, isQuote]
  | openLiteral isQuote => simp [startsLexeme, isQuote]
  | other => contradiction

namespace Segmentation

variable {code : List Char} {lexeme : Lexeme} {lexemes : List Lexeme}

theorem nil : Segmentation [] [] where
  joined := rfl
  nonempty := by simp
  spelled before lexeme after cut := by cases before <;> cases cut
  apart := .nil

theorem tail (segmentation : Segmentation code (lexeme :: lexemes)) :
    Segmentation (lexemes.flatMap (·.text.toList)) lexemes where
  joined := rfl
  nonempty other member := segmentation.nonempty other (List.mem_cons_of_mem _ member)
  spelled before other after cut :=
    segmentation.spelled (lexeme :: before) other after (congrArg (lexeme :: ·) cut)
  apart := segmentation.apart.tail

theorem exists_text (segmentation : Segmentation code (lexeme :: lexemes)) :
    ∃ c body, lexeme.text.toList = c :: body :=
  List.exists_cons_of_ne_nil (by simpa using segmentation.nonempty lexeme List.mem_cons_self)

theorem next (segmentation : Segmentation code (lexeme :: lexemes)) (other : lexeme.kind = .other)
    (d : Char) (head : (lexemes.flatMap (·.text.toList)).head? = some d) :
    startsLexeme d = true := by
  cases lexemes with
  | nil => cases head
  | cons following rest =>
      have spells := segmentation.tail.spelled [] following rest rfl
      have named : following.kind ≠ .other := fun same =>
        (List.isChain_cons_cons.mp segmentation.apart).1 ⟨other, same⟩
      obtain ⟨e, body, text⟩ := segmentation.tail.exists_text
      rw [List.flatMap_cons, text] at head
      obtain rfl : e = d := Option.some.inj head
      rw [text] at spells
      exact spells.startsLexeme_eq named

theorem eq_lexChars (segmentation : Segmentation code lexemes) : lexemes = lexChars code := by
  induction lexemes generalizing code with
  | nil =>
      obtain rfl := segmentation.joined
      rw [List.flatMap_nil, lexChars]
  | cons lexeme rest ih =>
      obtain ⟨c, body, text⟩ := segmentation.exists_text
      have spells := segmentation.spelled [] lexeme rest rfl
      have joined := segmentation.joined
      rw [List.flatMap_cons, text] at joined
      rw [text] at spells
      have split := spells.splitFirst_eq segmentation.next
      have whole : String.ofList (c :: body) = lexeme.text := by rw [← text, String.ofList_toList]
      rw [← joined, List.cons_append, lexChars, split, whole, ← ih segmentation.tail]

theorem cons (segmentation : Segmentation code lexemes) {c : Char} {kind : LexemeKind}
    {body : List Char} (spells : Spells kind (c :: body) code)
    (apart : kind = .other → ∀ following ∈ lexemes.head?, following.kind ≠ .other) :
    Segmentation (c :: (body ++ code)) (⟨kind, String.ofList (c :: body)⟩ :: lexemes) where
  joined := by simp [segmentation.joined]
  nonempty := by simpa using segmentation.nonempty
  spelled before lexeme after cut := by
    cases before with
    | nil =>
        obtain ⟨rfl, rfl⟩ := List.cons.inj cut
        rwa [segmentation.joined, String.toList_ofList]
    | cons first before => exact segmentation.spelled before lexeme after (List.cons.inj cut).2
  apart := List.isChain_cons.mpr
    ⟨fun following member both => apart both.1 following member both.2, segmentation.apart⟩

end Segmentation

theorem segmentation_lexChars (cs : List Char) : Segmentation cs (lexChars cs) := by
  induction cs using lexChars.induct with
  | case1 =>
      rw [lexChars]
      exact .nil
  | case2 c rest ih =>
      obtain ⟨spells, next⟩ := spells_splitFirst c rest
      have whole := splitFirst_append c rest
      rcases split : splitFirst c rest with ⟨kind, body, after⟩
      rw [split] at ih spells next whole
      simp only at ih spells next whole
      subst whole
      rw [lexChars, split]
      refine ih.cons spells fun other following member => ?_
      cases after with
      | nil => simp [lexChars] at member
      | cons d after =>
          rw [lexChars] at member
          obtain rfl := Option.some.inj member
          exact splitFirst_ne_other (next other d rfl) after

/-- The lexemes of a code are the one segmentation of it. -/
theorem segmentation_iff (code : String) (lexemes : List Lexeme) :
    Segmentation code.toList lexemes ↔ lexemes = lex code := by
  constructor
  · intro segmentation
    exact segmentation.eq_lexChars
  · rintro rfl
    exact segmentation_lexChars code.toList

end FrameGraph.Lexeme
