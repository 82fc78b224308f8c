import FrameGraph.Number.Numeral
import FrameGraph.Text.Hexadecimal
import FrameGraph.Toml.Basic

/-!
Integers, floats, dates and times of TOML. A reader gives the value and the rest of the text.
-/

namespace FrameGraph.Toml

/-! ### Dates and times -/

def twoDigits? (low high : Nat) : List Char → Option (Nat × List Char)
  | a :: b :: rest =>
    let n := digitsValue [a, b]
    if a.isDigit && b.isDigit && low ≤ n && n ≤ high then some (n, rest) else none
  | _ => none

def daysIn (year month : Nat) : Nat :=
  if month = 2 then
    if year % 4 = 0 && (year % 100 ≠ 0 || year % 400 = 0) then 29 else 28
  else if month ∈ [4, 6, 9, 11] then 30
  else 31

def skipDate? : List Char → Option (List Char)
  | a :: b :: c :: d :: '-' :: rest => do
    if [a, b, c, d].all Char.isDigit then
      let (month, rest) ← twoDigits? 1 12 rest
      match rest with
      | '-' :: rest =>
        (twoDigits? 1 (daysIn (digitsValue [a, b, c, d]) month) rest).map (·.2)
      | _ => none
    else none
  | _ => none

def skipSecondFraction : List Char → List Char
  | '.' :: d :: rest => if d.isDigit then rest.dropWhile Char.isDigit else '.' :: d :: rest
  | rest => rest

def skipTime? (cs : List Char) : Option (List Char) := do
  let (_, rest) ← twoDigits? 0 23 cs
  let ':' :: rest := rest | none
  let (_, rest) ← twoDigits? 0 59 rest
  let ':' :: rest := rest | none
  let (_, rest) ← twoDigits? 0 60 rest
  return skipSecondFraction rest

def skipOffset? : List Char → Option (List Char)
  | 'Z' :: rest | 'z' :: rest => some rest
  | '+' :: rest | '-' :: rest => do
    let (_, rest) ← twoDigits? 0 23 rest
    let ':' :: rest := rest | none
    let (_, rest) ← twoDigits? 0 59 rest
    return rest
  | rest => some rest

/-- Passes over a date, a time, or a date and a time between which stands a `T` or a space. -/
def skipMoment? (cs : List Char) : Option (List Char) :=
  match skipDate? cs with
  | none => skipTime? cs
  | some (c :: rest) =>
    if c == 'T' || c == 't' || c == ' ' then
      match skipTime? rest with
      | some rest => skipOffset? rest
      | none => some (c :: rest)
    else some (c :: rest)
  | some [] => some []

/-! ### Numbers -/

/-- The rest of a run of digits in which single underscores may stand between digits; also gives
the digits. None if an underscore stands elsewhere. -/
def readGrouped (isDigit : Char → Bool) : List Char → Option (List Char × List Char)
  | '_' :: d :: rest =>
    if isDigit d then (readGrouped isDigit rest).map fun (digits, rest) => (d :: digits, rest)
    else none
  | ['_'] => none
  | d :: rest =>
    if isDigit d then (readGrouped isDigit rest).map fun (digits, rest) => (d :: digits, rest)
    else some ([], d :: rest)
  | [] => some ([], [])

def readDigits? (isDigit : Char → Bool) : List Char → Option (List Char × List Char)
  | d :: rest =>
    if isDigit d then (readGrouped isDigit rest).map fun (digits, rest) => (d :: digits, rest)
    else none
  | [] => none

def readWhole? : List Char → Option (List Char × List Char)
  | '0' :: rest => some (['0'], rest)
  | rest => readDigits? Char.isDigit rest

/-- Whether the number with the given digits times a power of ten is too large for a binary64
number. -/
def overflows (digits : List Char) (exponent : Int) : Bool :=
  let n := digitsValue digits
  let magnitude := (toString n).length + exponent
  if n = 0 || magnitude < 309 then false
  else if 309 < magnitude then true
  else
    let bound := Nat.pow 2 1024 - Nat.pow 2 970
    bound * Nat.pow 10 (-exponent).toNat ≤ n * Nat.pow 10 exponent.toNat

def readFraction? : List Char → Option (List Char × List Char)
  | '.' :: rest => readDigits? Char.isDigit rest
  | rest => some ([], rest)

def readExponent? : List Char → Option (Int × List Char)
  | c :: rest =>
    if c == 'e' || c == 'E' then do
      let (negative, rest) := match rest with
        | '-' :: rest => (true, rest)
        | '+' :: rest => (false, rest)
        | rest => (false, rest)
      let (digits, rest) ← readDigits? Char.isDigit rest
      let value : Int := digitsValue digits
      return (if negative then -value else value, rest)
    else some (0, c :: rest)
  | [] => some (0, [])

def integer? (n : Int) : Option Toml :=
  if -Int.pow 2 63 ≤ n && n < Int.pow 2 63 then some (.integer n) else none

/-- A number without its sign. A positive float must not be too large. -/
def readUnsigned (negative : Bool) (cs : List Char) : Option (Toml × List Char) :=
  match cs with
  | 'i' :: 'n' :: 'f' :: rest => some (.float (if negative then "-inf" else "inf"), rest)
  | 'n' :: 'a' :: 'n' :: rest => some (.float "nan", rest)
  | cs => do
    let (whole, rest) ← readWhole? cs
    match rest with
    | '.' :: _ | 'e' :: _ | 'E' :: _ =>
      let (fraction, rest) ← readFraction? rest
      let (exponent, rest) ← readExponent? rest
      if !negative && overflows (whole ++ fraction) (exponent - fraction.length) then none
      else return (.float (String.ofList (cs.take (cs.length - rest.length))), rest)
    | rest =>
      let value : Int := digitsValue whole
      return (← integer? (if negative then -value else value), rest)

def baseValue (base : Nat) (digits : List Char) : Nat :=
  digits.foldl (fun n c => base * n + (hexValue? c).getD 0) 0

def readBased (base : Nat) (cs : List Char) : Option (Toml × List Char) := do
  let (digits, rest) ← readDigits? (fun c => (hexValue? c).any (· < base)) cs
  return (← integer? (baseValue base digits), rest)

def readNumber (cs : List Char) : Option (Toml × List Char) :=
  match skipMoment? cs with
  | some rest => some (.moment (String.ofList (cs.take (cs.length - rest.length))), rest)
  | none =>
    match cs with
    | '0' :: 'x' :: rest => readBased 16 rest
    | '0' :: 'o' :: rest => readBased 8 rest
    | '0' :: 'b' :: rest => readBased 2 rest
    | '+' :: rest => readUnsigned false rest
    | '-' :: rest => readUnsigned true rest
    | rest => readUnsigned false rest

end FrameGraph.Toml
