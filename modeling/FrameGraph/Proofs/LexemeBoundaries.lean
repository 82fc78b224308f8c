import FrameGraph.Proofs.CodeRewriting

/-!
Where lexemes end. Main statements: what follows a lexeme may be exchanged as long as it cannot
belong to it, other text is taken as it comes, and code whose string literals are all closed is
rewritten on its own if no word goes on behind it.
-/

namespace FrameGraph

/-- Whether a character directly behind a word, an identifier or a number, belongs to it. -/
def LexemeKind.goesOn : LexemeKind → Char → Bool
  | .identifier => Lexeme.isIdentifierPart
  | .number => Lexeme.isNumberPart
  | _ => fun _ => false

/-- Where code stands: outside of string literals, in one with the given quote, or in one directly
behind a backslash. -/
inductive LiteralState
  | outside
  | inside (quote : Char)
  | escaped (quote : Char)
deriving DecidableEq, Repr

namespace LiteralState

def step : LiteralState → Char → LiteralState
  | outside, c => if Lexeme.isQuote c then inside c else outside
  | inside quote, c =>
    if c = '\\' then escaped quote else if c = quote then outside else inside quote
  | escaped quote, _ => inside quote

def run (state : LiteralState) (cs : List Char) : LiteralState :=
  cs.foldl step state

@[simp] theorem run_nil (state : LiteralState) : state.run [] = state := rfl

@[simp] theorem run_cons (state : LiteralState) (c : Char) (cs : List Char) :
    state.run (c :: cs) = (state.step c).run cs := rfl

@[simp] theorem run_append (state : LiteralState) (cs ds : List Char) :
    state.run (cs ++ ds) = (state.run cs).run ds :=
  List.foldl_append

theorem run_outside {cs : List Char} (plain : ∀ c ∈ cs, Lexeme.isQuote c = false) :
    outside.run cs = outside := by
  induction cs with
  | nil => rfl
  | cons c cs ih =>
      rw [run_cons, step, plain c List.mem_cons_self]
      exact ih fun d member => plain d (List.mem_cons_of_mem _ member)

end LiteralState

namespace Lexeme

/-! Characters of one class are not of another. -/

theorem isIdentifierPart_of_isAlphanum {c : Char} (letter : c.isAlphanum = true) :
    isIdentifierPart c = true := by
  have below (last : Char) (small : last.toNat < 128) (bounded : c.val ≤ last.val) :
      c.toNat < 128 :=
    Nat.lt_of_le_of_lt (UInt32.le_iff_toNat_le.mp bounded) small
  have ascii : c.toNat < 128 := by
    rcases Bool.or_eq_true_iff.mp letter with alpha | digit
    · rcases Bool.or_eq_true_iff.mp alpha with upper | lower
      · exact below 'Z' (by decide) (of_decide_eq_true upper).2
      · exact below 'z' (by decide) (of_decide_eq_true (Bool.and_eq_true_iff.mp lower).2)
    · exact below '9' (by decide) (of_decide_eq_true (Bool.and_eq_true_iff.mp digit).2)
  rw [isIdentifierPart, Text.isAlphanumeric_of_ascii ascii, letter, Bool.or_true]

theorem isIdentifierPart_of_isDigit {c : Char} (digit : c.isDigit = true) :
    isIdentifierPart c = true :=
  isIdentifierPart_of_isAlphanum (by rw [Char.isAlphanum, digit, Bool.or_true])

theorem isNumberPart_of_part {c : Char} (part : isIdentifierPart c = true) :
    isNumberPart c = true := by
  simp [isNumberPart, part]

theorem isQuote_eq_false_of_part {c : Char} (part : isNumberPart c = true) :
    isQuote c = false := by
  cases quote : isQuote c with
  | false => rfl
  | true =>
      rw [isQuote, Bool.or_eq_true, beq_iff_eq, beq_iff_eq] at quote
      rcases quote with rfl | rfl <;> exact absurd part (by decide)

theorem isQuote_eq_false_of_plain {c : Char} (plain : startsLexeme c = false) :
    isQuote c = false := by
  simp only [startsLexeme, Bool.or_eq_false_iff] at plain
  exact plain.2

/-! The first lexeme of a code. -/

theorem splitWhile_boundary {test : Char → Bool} {body after : List Char}
    (inside : ∀ d ∈ body, test d = true) (stops : ∀ d, after.head? = some d → test d = false) :
    splitWhile test (body ++ after) = (body, after) := by
  have none : after.takeWhile test = [] ∧ after.dropWhile test = after := by
    cases after with
    | nil => exact ⟨rfl, rfl⟩
    | cons d rest => simp [stops d rfl]
  rw [splitWhile, List.takeWhile_append_of_pos inside, List.dropWhile_append_of_pos inside, none.1,
    none.2, List.append_nil]

theorem forall_splitWhile (test : Char → Bool) (cs : List Char) :
    (∀ d ∈ (splitWhile test cs).1, test d = true) ∧
      ∀ d, (splitWhile test cs).2.head? = some d → test d = false := by
  refine ⟨fun d member => List.all_eq_true.mp List.all_takeWhile d member, ?_⟩
  intro d head
  have dropped := List.head?_dropWhile_not test cs
  rw [splitWhile] at head
  rw [head] at dropped
  simpa using dropped

theorem splitLiteral_cons {quote c : Char} (plain : c ≠ '\\') (rest : List Char) :
    splitLiteral quote (c :: rest) =
      if c = quote then ([c], rest)
      else (c :: (splitLiteral quote rest).1, (splitLiteral quote rest).2) := by
  rw [splitLiteral]
  intro _ _ escape
  exact absurd escape plain

/-- A literal runs to the end of the code without being closed, or it is closed and ends there
whatever follows. -/
theorem splitLiteral_open_or_closed {quote : Char} (isQuote : isQuote quote = true)
    (cs : List Char) :
    ((splitLiteral quote cs).2 = [] ∧ (LiteralState.inside quote).run cs ≠ .outside) ∨
    ((∀ s, splitLiteral quote ((splitLiteral quote cs).1 ++ s) = ((splitLiteral quote cs).1, s)) ∧
      (LiteralState.inside quote).run (splitLiteral quote cs).1 = .outside) := by
  have plain : quote ≠ '\\' := by
    rintro rfl
    exact absurd isQuote (by decide)
  refine splitLiteral_induction ?nil ?trailing ?escaped ?closing ?inside cs
  case nil => exact .inl ⟨rfl, by simp⟩
  case trailing => exact .inl ⟨rfl, by simp [LiteralState.step]⟩
  case escaped =>
    rintro c rest body after (⟨ended, opened⟩ | ⟨again, closed⟩)
    · exact .inl ⟨ended, by simpa [LiteralState.step] using opened⟩
    · refine .inr ⟨fun s => ?_, by simpa [LiteralState.step] using closed⟩
      simp [splitLiteral, again s]
  case closing =>
    intro rest
    refine .inr ⟨fun s => ?_, by simp [LiteralState.step, plain]⟩
    simp [splitLiteral_cons plain]
  case inside =>
    rintro c rest body after escape differs (⟨ended, opened⟩ | ⟨again, closed⟩)
    · exact .inl ⟨ended, by simpa [LiteralState.step, escape, differs] using opened⟩
    · refine .inr ⟨fun s => ?_, by simpa [LiteralState.step, escape, differs] using closed⟩
      simp [splitLiteral_cons escape, differs, again s]

/-- The first lexeme of a code that starts with `c`: its kind, what belongs to it behind `c`, and
what follows. -/
inductive First (c : Char) : LexemeKind → List Char → List Char → Prop
  /-- A word stays the same before everything that cannot belong to it. -/
  | word {kind : LexemeKind} {body after : List Char}
      (inside : ∀ d ∈ c :: body, isNumberPart d = true)
      (stops : ∀ d, after.head? = some d → kind.goesOn d = false)
      (again : ∀ s, (∀ d, s.head? = some d → kind.goesOn d = false) →
        splitFirst c (body ++ s) = (kind, body, s)) : First c kind body after
  /-- A literal that is closed stays the same before everything. -/
  | closed {body after : List Char}
      (closes : LiteralState.outside.run (c :: body) = .outside)
      (again : ∀ s, splitFirst c (body ++ s) = (.stringLiteral, body, s)) :
      First c .stringLiteral body after
  | opened {body : List Char} (opens : LiteralState.outside.run (c :: body) ≠ .outside)
      (whole : splitFirst c body = (.stringLiteral, body, [])) : First c .stringLiteral body []
  | other {body after : List Char} (plain : ∀ d ∈ c :: body, startsLexeme d = false) :
      First c .other body after

theorem First.of_splitWhile {c : Char} {kind : LexemeKind}
    (split : ∀ s, splitFirst c s = (kind, splitWhile kind.goesOn s))
    (part : ∀ d, kind.goesOn d = true → isNumberPart d = true) (head : isNumberPart c = true)
    (rest : List Char) :
    First c kind (splitWhile kind.goesOn rest).1 (splitWhile kind.goesOn rest).2 := by
  obtain ⟨inside, stops⟩ := forall_splitWhile kind.goesOn rest
  refine .word ?_ stops fun s ends => ?_
  · intro d member
    rcases List.mem_cons.mp member with rfl | member
    · exact head
    · exact part d (inside d member)
  · rw [split, splitWhile_boundary inside ends]

theorem First.of_splitLiteral {c : Char} (quote : isQuote c = true)
    (split : ∀ s, splitFirst c s = (.stringLiteral, splitLiteral c s)) (rest : List Char) :
    First c .stringLiteral (splitLiteral c rest).1 (splitLiteral c rest).2 := by
  have enter (body : List Char) :
      LiteralState.outside.run (c :: body) = (LiteralState.inside c).run body := by
    rw [LiteralState.run_cons, LiteralState.step, if_pos quote]
  rcases splitLiteral_open_or_closed quote rest with ⟨ended, opens⟩ | ⟨again, closes⟩
  · have whole := splitLiteral_append c rest
    rw [ended, List.append_nil] at whole
    rw [ended, whole]
    refine .opened (by rwa [enter]) ?_
    rw [split]
    exact Prod.ext rfl (Prod.ext whole ended)
  · exact .closed (by rw [enter, closes]) fun s => by rw [split, again]

theorem first_splitFirst (c : Char) (rest : List Char) :
    First c (splitFirst c rest).1 (splitFirst c rest).2.1 (splitFirst c rest).2.2 := by
  by_cases start : isIdentifierStart c = true
  · have split (s : List Char) : splitFirst c s = (.identifier, splitWhile isIdentifierPart s) := by
      rw [splitFirst, if_pos start]
    rw [split]
    exact .of_splitWhile split (fun _ => isNumberPart_of_part)
      (isNumberPart_of_part (isIdentifierPart_of_start start)) rest
  by_cases digit : c.isDigit = true
  · have split (s : List Char) : splitFirst c s = (.number, splitWhile isNumberPart s) := by
      rw [splitFirst, if_neg start, if_pos digit]
    rw [split]
    exact .of_splitWhile split (fun _ => id)
      (isNumberPart_of_part (isIdentifierPart_of_isDigit digit)) rest
  by_cases quote : isQuote c = true
  · have split (s : List Char) : splitFirst c s = (.stringLiteral, splitLiteral c s) := by
      rw [splitFirst, if_neg start, if_neg digit, if_pos quote]
    rw [split]
    exact .of_splitLiteral quote split rest
  · have split : splitFirst c rest = (.other, splitWhile (fun c => !startsLexeme c) rest) := by
      rw [splitFirst, if_neg start, if_neg digit, if_neg quote]
    rw [split]
    refine .other fun d member => ?_
    rcases List.mem_cons.mp member with rfl | member
    · simp [startsLexeme, start, digit, quote]
    · simpa using (forall_splitWhile (fun c => !startsLexeme c) rest).1 d member

/-! Rewriting code piece by piece. -/

theorem getLast?_append_iff {before other : List Char}
    (same : before.getLast? = some '.' ↔ other.getLast? = some '.') (cs : List Char) :
    (before ++ cs).getLast? = some '.' ↔ (other ++ cs).getLast? = some '.' := by
  rw [List.getLast?_append, List.getLast?_append]
  cases cs.getLast? with
  | none => exact same
  | some c => exact Iff.rfl

theorem not_dotted_identifier {name : List Char} (nonempty : name ≠ [])
    (identifier : ∀ d ∈ name, isIdentifierPart d = true) (before : List Char) :
    (before ++ name).getLast? ≠ some '.' := by
  rw [List.getLast?_append, List.getLast?_eq_some_getLast nonempty]
  intro dotted
  have part := identifier _ (List.getLast_mem nonempty)
  rw [Option.some.inj dotted] at part
  exact absurd part (by decide)

/-- Of the text in front of the lexemes it only matters whether it ends with a dot. -/
theorem rewriteFrom_congr {before other : List Char}
    (same : before.getLast? = some '.' ↔ other.getLast? = some '.') (lexemes : List Lexeme) :
    rewriteFrom replace before lexemes = rewriteFrom replace other lexemes := by
  induction lexemes generalizing before other with
  | nil => rfl
  | cons lexeme rest ih =>
      rw [rewriteFrom, rewriteFrom, ih (getLast?_append_iff same _)]
      simp only [ne_eq, same]

theorem rewriteFrom_cons {c : Char} {rest : List Char} {kind : LexemeKind} {body after : List Char}
    (split : splitFirst c rest = (kind, body, after)) (before : List Char) :
    rewriteFrom replace before (lexChars (c :: rest)) =
      (if kind = .identifier ∧ before.getLast? ≠ some '.' then replace (String.ofList (c :: body))
        else String.ofList (c :: body)) ++
        rewriteFrom replace (before ++ c :: body) (lexChars after) := by
  rw [lexChars, split, rewriteFrom, String.toList_ofList]

theorem rewriteFrom_takeWhile (before cs : List Char) :
    rewriteFrom replace before (lexChars cs) =
      String.ofList (cs.takeWhile fun c => !startsLexeme c) ++
        rewriteFrom replace (before ++ cs.takeWhile fun c => !startsLexeme c)
          (lexChars (cs.dropWhile fun c => !startsLexeme c)) := by
  cases cs with
  | nil => simp [lexChars, rewriteFrom]
  | cons c rest =>
      cases starts : startsLexeme c with
      | true => simp [starts]
      | false =>
          have split : splitFirst c rest =
              (.other, splitWhile (fun c => !startsLexeme c) rest) := by
            simp only [startsLexeme, Bool.or_eq_false_iff] at starts
            simp [splitFirst, starts]
          rw [rewriteFrom_cons split]
          simp [starts]

theorem rewriteFrom_append_plain {plain : List Char}
    (other : ∀ c ∈ plain, startsLexeme c = false) (before cs : List Char) :
    rewriteFrom replace before (lexChars (plain ++ cs)) =
      String.ofList plain ++ rewriteFrom replace (before ++ plain) (lexChars cs) := by
  have pass : ∀ c ∈ plain, (!startsLexeme c) = true := by simpa using other
  rw [rewriteFrom_takeWhile, rewriteFrom_takeWhile (before ++ plain),
    List.takeWhile_append_of_pos pass, List.dropWhile_append_of_pos pass]
  simp [String.append_assoc]

theorem goesOn_eq_false (kind : LexemeKind) {d : Char} (ends : isNumberPart d = false) :
    kind.goesOn d = false := by
  cases kind with
  | identifier =>
      simp only [isNumberPart, Bool.or_eq_false_iff] at ends
      exact ends.2
  | number => exact ends
  | stringLiteral => rfl
  | other => rfl

theorem First.closed_or_last {c : Char} {kind : LexemeKind} {body after : List Char}
    (first : First c kind body after) :
    LiteralState.outside.run (c :: body) = .outside ∨ after = [] := by
  cases first with
  | word inside stops again =>
      exact .inl (LiteralState.run_outside fun d member =>
        isQuote_eq_false_of_part (inside d member))
  | closed closes again => exact .inl closes
  | opened opens whole => exact .inr rfl
  | other plain =>
      exact .inl (LiteralState.run_outside fun d member =>
        isQuote_eq_false_of_plain (plain d member))

theorem First.rewriteFrom_cons_of_goesOn {c : Char} {kind : LexemeKind}
    {body after tail : List Char} (first : First c kind body after)
    (closed : LiteralState.outside.run (c :: body) = .outside ∨ tail = [])
    (starts : ∀ d, tail.head? = some d → after.head? = some d ∨ kind.goesOn d = false)
    (before : List Char) :
    rewriteFrom replace before (lexChars (c :: (body ++ tail))) =
      (if kind = .identifier ∧ before.getLast? ≠ some '.' then replace (String.ofList (c :: body))
        else String.ofList (c :: body)) ++
        rewriteFrom replace (before ++ c :: body) (lexChars tail) := by
  cases first with
  | word inside stops again =>
      exact Lexeme.rewriteFrom_cons
        (again tail fun d head => (starts d head).elim (stops d) id) before
  | closed closes again => exact Lexeme.rewriteFrom_cons (again tail) before
  | opened opens whole =>
      rw [closed.resolve_left opens, List.append_nil]
      exact Lexeme.rewriteFrom_cons whole before
  | other plain =>
      rw [← List.cons_append, rewriteFrom_append_plain plain, if_neg (by simp)]

theorem First.rewriteFrom_cons {c : Char} {kind : LexemeKind} {body after tail : List Char}
    (first : First c kind body after)
    (closed : LiteralState.outside.run (c :: body) = .outside ∨ tail = [])
    (starts : ∀ d, tail.head? = some d → after.head? = some d ∨ isNumberPart d = false)
    (before : List Char) :
    rewriteFrom replace before (lexChars (c :: (body ++ tail))) =
      (if kind = .identifier ∧ before.getLast? ≠ some '.' then replace (String.ofList (c :: body))
        else String.ofList (c :: body)) ++
        rewriteFrom replace (before ++ c :: body) (lexChars tail) :=
  first.rewriteFrom_cons_of_goesOn closed
    (fun d head => (starts d head).imp_right (goesOn_eq_false kind)) before

/-- Code whose literals are closed is rewritten on its own if what follows does not go on with its
last word. -/
theorem rewriteFrom_append {cs ds : List Char} (closed : LiteralState.outside.run cs = .outside)
    (stops : ∀ d, ds.head? = some d → isNumberPart d = false) (before : List Char) :
    rewriteFrom replace before (lexChars (cs ++ ds)) =
      rewriteFrom replace before (lexChars cs) ++
        rewriteFrom replace (before ++ cs) (lexChars ds) := by
  induction cs using lexChars.induct generalizing before with
  | case1 => simp [lexChars, rewriteFrom]
  | case2 c rest ih =>
      have first := first_splitFirst c rest
      have whole := splitFirst_append c rest
      rcases split : splitFirst c rest with ⟨kind, body, after⟩
      rw [split] at ih first whole
      simp only at ih first whole
      subst whole
      rw [← List.cons_append, LiteralState.run_append] at closed
      have inside : LiteralState.outside.run (c :: body) = .outside := by
        rcases first.closed_or_last with closes | rfl
        · exact closes
        · exact closed
      rw [inside] at closed
      have starts (d : Char) (head : (after ++ ds).head? = some d) :
          after.head? = some d ∨ isNumberPart d = false := by
        cases after with
        | nil => exact .inr (stops d head)
        | cons e after => exact .inl head
      rw [List.cons_append, List.append_assoc, first.rewriteFrom_cons (.inl inside) starts,
        first.rewriteFrom_cons (.inl inside) fun _ => .inl, ih closed, String.append_assoc]
      simp

end Lexeme

end FrameGraph
