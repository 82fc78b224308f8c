import FrameGraph.Json.Basic
import FrameGraph.Text.Hexadecimal

/-!
Reading JSON text. Everything the grammar allows is read; what a number or string means is decided
by whoever uses it.
-/

namespace FrameGraph.Json

def isSpace (c : Char) : Bool :=
  c == ' ' || c == '\n' || c == '\t' || c == '\r'

def skipSpace (cs : List Char) : List Char :=
  cs.dropWhile isSpace

def unit? (a b c d : Char) : Option Nat :=
  hexNumber? [a, b, c, d]

def isLeading (unit : Nat) : Bool :=
  0xD800 ≤ unit && unit < 0xDC00

def isTrailing (unit : Nat) : Bool :=
  0xDC00 ≤ unit && unit < 0xE000

def paired (leading trailing : Nat) : Char :=
  Char.ofNat (0x10000 + (leading - 0xD800) * 0x400 + (trailing - 0xDC00))

def shortEscape? : Char → Option Char
  | '"' => some '"'
  | '\\' => some '\\'
  | '/' => some '/'
  | 'b' => some '\x08'
  | 'f' => some '\x0c'
  | 'n' => some '\n'
  | 'r' => some '\r'
  | 't' => some '\t'
  | _ => none

inductive StringPart
  | char (c : Char)
  | unit (n : Nat)

/-- The parts of a string up to its closing quote; `taken` are those before, backwards. -/
def readParts (taken : List StringPart) : List Char → Option (List StringPart × List Char)
  | [] => none
  | '"' :: rest => some (taken.reverse, rest)
  | '\\' :: 'u' :: a :: b :: c :: d :: rest =>
    match unit? a b c d with
    | none => none
    | some n => readParts (.unit n :: taken) rest
  | '\\' :: letter :: rest =>
    match shortEscape? letter with
    | none => none
    | some c => readParts (.char c :: taken) rest
  | c :: rest => if c.toNat < 32 then none else readParts (.char c :: taken) rest

/-- The characters of a string, after those already `taken` backwards; none if half of a surrogate
pair stands alone. -/
def joinParts (taken : List Char) : List StringPart → Option (List Char)
  | [] => some taken.reverse
  | .char c :: rest => joinParts (c :: taken) rest
  | [.unit n] =>
    if isLeading n || isTrailing n then none else some (Char.ofNat n :: taken).reverse
  | .unit n :: .unit m :: rest =>
    if isTrailing n then none
    else if isLeading n then
      if isTrailing m then joinParts (paired n m :: taken) rest else none
    else joinParts (Char.ofNat n :: taken) (.unit m :: rest)
  | .unit n :: .char c :: rest =>
    if isLeading n || isTrailing n then none else joinParts (c :: Char.ofNat n :: taken) rest

def readString (cs : List Char) : Option (Option String × List Char) :=
  (readParts [] cs).map fun (parts, rest) => ((joinParts [] parts).map String.ofList, rest)

def readDigits? (cs : List Char) : Option (String × List Char) :=
  let digits := cs.takeWhile Char.isDigit
  if digits.isEmpty then none else some (String.ofList digits, cs.dropWhile Char.isDigit)

def readFraction : List Char → Option (Option String × List Char)
  | '.' :: rest => (readDigits? rest).map fun (digits, rest) => (some digits, rest)
  | rest => some (none, rest)

def readExponentDigits (sign : Option Char) (cs : List Char) :
    Option (Option NumeralExponent × List Char) :=
  (readDigits? cs).map fun (digits, rest) => (some ⟨sign, digits⟩, rest)

def readExponent : List Char → Option (Option NumeralExponent × List Char)
  | c :: rest =>
    if c == 'e' || c == 'E' then
      match rest with
      | '+' :: rest => readExponentDigits (some '+') rest
      | '-' :: rest => readExponentDigits (some '-') rest
      | rest => readExponentDigits none rest
    else some (none, c :: rest)
  | [] => some (none, [])

def readMagnitude (negative : Bool) (cs : List Char) : Option (Numeral × List Char) := do
  let (whole, cs) ← readDigits? cs
  if whole.startsWith '0' && whole != "0" then none
  else
    let (fraction, cs) ← readFraction cs
    let (exponent, cs) ← readExponent cs
    some (⟨negative, whole, fraction, exponent⟩, cs)

def readNumeral : List Char → Option (Numeral × List Char)
  | '-' :: rest => readMagnitude true rest
  | rest => readMagnitude false rest

mutual

/-- A value and what follows it. Every step consumes a character, so the length of the text is fuel
enough. -/
def readValue : Nat → List Char → Option (Json × List Char)
  | 0, _ => none
  | fuel + 1, cs =>
    match skipSpace cs with
    | '{' :: rest =>
      match skipSpace rest with
      | '}' :: rest => some (object [], rest)
      | rest => (readMembers fuel rest).map fun (members, rest) => (object members, rest)
    | '[' :: rest =>
      match skipSpace rest with
      | ']' :: rest => some (array [], rest)
      | rest => (readItems fuel rest).map fun (items, rest) => (array items, rest)
    | '"' :: rest => (readString rest).map fun (text, rest) => (string text, rest)
    | 'n' :: 'u' :: 'l' :: 'l' :: rest => some (null, rest)
    | 't' :: 'r' :: 'u' :: 'e' :: rest => some (boolean true, rest)
    | 'f' :: 'a' :: 'l' :: 's' :: 'e' :: rest => some (boolean false, rest)
    | rest => (readNumeral rest).map fun (value, rest) => (number value, rest)

def readItems : Nat → List Char → Option (List Json × List Char)
  | 0, _ => none
  | fuel + 1, cs =>
    match readValue fuel cs with
    | none => none
    | some (item, rest) =>
      match skipSpace rest with
      | ',' :: rest => (readItems fuel rest).map fun (items, rest) => (item :: items, rest)
      | ']' :: rest => some ([item], rest)
      | _ => none

def readMembers : Nat → List Char → Option (List (Option String × Json) × List Char)
  | 0, _ => none
  | fuel + 1, cs =>
    match skipSpace cs with
    | '"' :: rest =>
      match readString rest with
      | none => none
      | some (key, rest) =>
        match skipSpace rest with
        | ':' :: rest =>
          match readValue fuel rest with
          | none => none
          | some (item, rest) =>
            match skipSpace rest with
            | ',' :: rest =>
              (readMembers fuel rest).map fun (members, rest) => ((key, item) :: members, rest)
            | '}' :: rest => some ([(key, item)], rest)
            | _ => none
        | _ => none
    | _ => none

end

def parse? (text : String) : Option Json :=
  let cs := text.toList
  match readValue (cs.length + 1) cs with
  | some (value, rest) => if (skipSpace rest).isEmpty then some value else none
  | none => none

end FrameGraph.Json
