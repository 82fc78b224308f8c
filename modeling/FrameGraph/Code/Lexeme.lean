import FrameGraph.Text.Numeric

/-!
Cutting code into identifiers, numbers, string literals and other text. Main statement: the lexemes
concatenate to the code.
-/

namespace FrameGraph

inductive LexemeKind
  | identifier
  | number
  | stringLiteral
  | other
deriving DecidableEq, Repr

structure Lexeme where
  kind : LexemeKind
  text : String
deriving DecidableEq, Repr

namespace Lexeme

def isIdentifierStart (c : Char) : Bool :=
  c == '_' || Text.isAlphabetic c

def isIdentifierPart (c : Char) : Bool :=
  c == '_' || Text.isAlphanumeric c

def isNumberPart (c : Char) : Bool :=
  c == '.' || isIdentifierPart c

def isQuote (c : Char) : Bool :=
  c == '"' || c == '\''

def startsLexeme (c : Char) : Bool :=
  isIdentifierStart c || c.isDigit || isQuote c

/-- The rest of a string literal, up to the first quote of its kind that is not escaped, and what
follows. -/
def splitLiteral (quote : Char) : List Char → List Char × List Char
  | [] => ([], [])
  | '\\' :: c :: rest =>
    let (body, after) := splitLiteral quote rest
    ('\\' :: c :: body, after)
  | c :: rest =>
    if c = quote then ([c], rest)
    else
      let (body, after) := splitLiteral quote rest
      (c :: body, after)

/-- A backslash that nothing follows stands for itself. -/
@[elab_as_elim]
theorem splitLiteral_induction {quote : Char} {motive : List Char → List Char × List Char → Prop}
    (nil : motive [] ([], []))
    (trailing : motive ['\\'] (['\\'], []))
    (escaped : ∀ c rest body after, motive rest (body, after) →
      motive ('\\' :: c :: rest) ('\\' :: c :: body, after))
    (closing : ∀ rest, motive (quote :: rest) ([quote], rest))
    (inside : ∀ c rest body after, c ≠ '\\' → c ≠ quote → motive rest (body, after) →
      motive (c :: rest) (c :: body, after)) (cs : List Char) :
    motive cs (splitLiteral quote cs) := by
  fun_induction splitLiteral quote cs with
  | case1 => exact nil
  | case2 c rest body after split ih => exact escaped c rest body after (split ▸ ih)
  | case3 rest _ => exact closing rest
  | case4 c rest unescaped differs body after split ih =>
    by_cases backslash : c = '\\'
    · obtain rfl : rest = [] := by
        cases rest with
        | nil => rfl
        | cons d rest => exact (unescaped d rest backslash rfl).elim
      cases split
      exact backslash ▸ trailing
    · exact inside c rest body after backslash differs (split ▸ ih)

def splitWhile (test : Char → Bool) (cs : List Char) : List Char × List Char :=
  (cs.takeWhile test, cs.dropWhile test)

def splitFirst (c : Char) (rest : List Char) : LexemeKind × List Char × List Char :=
  if isIdentifierStart c then (.identifier, splitWhile isIdentifierPart rest)
  else if c.isDigit then (.number, splitWhile isNumberPart rest)
  else if isQuote c then (.stringLiteral, splitLiteral c rest)
  else (.other, splitWhile (fun c => !startsLexeme c) rest)

theorem splitLiteral_append (quote : Char) (cs : List Char) :
    (splitLiteral quote cs).1 ++ (splitLiteral quote cs).2 = cs := by
  fun_induction splitLiteral quote cs <;> simp_all

theorem splitWhile_append (test : Char → Bool) (cs : List Char) :
    (splitWhile test cs).1 ++ (splitWhile test cs).2 = cs :=
  List.takeWhile_append_dropWhile

theorem splitFirst_append (c : Char) (rest : List Char) :
    (splitFirst c rest).2.1 ++ (splitFirst c rest).2.2 = rest := by
  unfold splitFirst
  split
  · exact splitWhile_append _ rest
  · split
    · exact splitWhile_append _ rest
    · split
      · exact splitLiteral_append c rest
      · exact splitWhile_append _ rest

theorem length_rest_le (c : Char) (rest : List Char) :
    (splitFirst c rest).2.2.length ≤ rest.length := by
  have h := congrArg List.length (splitFirst_append c rest)
  simp only [List.length_append] at h
  omega

def lexChars : List Char → List Lexeme
  | [] => []
  | c :: rest =>
    ⟨(splitFirst c rest).1, String.ofList (c :: (splitFirst c rest).2.1)⟩ ::
      lexChars (splitFirst c rest).2.2
termination_by cs => cs.length
decreasing_by
  have := length_rest_le c rest
  simp only [List.length_cons]
  omega

def lex (code : String) : List Lexeme :=
  lexChars code.toList

def isIdentifier (lexeme : Lexeme) (name : String) : Bool :=
  lexeme.kind == .identifier && lexeme.text == name

def endsWithDot (lexeme : Lexeme) : Bool :=
  lexeme.text.toList.getLast? == some '.'

theorem flatMap_lexChars (cs : List Char) :
    (lexChars cs).flatMap (·.text.toList) = cs := by
  fun_induction lexChars cs with
  | case1 => rfl
  | case2 c rest ih => simp [ih, splitFirst_append]

theorem flatMap_lex (code : String) : (lex code).flatMap (·.text.toList) = code.toList :=
  flatMap_lexChars code.toList

/-- The lexemes with the names among them told apart: `convert` is applied to the identifiers that
do not follow a dot, `keep` to the text of every other lexeme. -/
def mapNames {α : Type} (convert keep : String → α) (afterDot : Bool) : List Lexeme → List α
  | [] => []
  | lexeme :: rest =>
    (if lexeme.kind == .identifier && !afterDot then convert lexeme.text else keep lexeme.text) ::
      mapNames convert keep lexeme.endsWithDot rest

end Lexeme

end FrameGraph
