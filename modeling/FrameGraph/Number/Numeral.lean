import FrameGraph.Number.Binary64

/-!
Decimal numerals: their written form, and the numbers they stand for.
-/

namespace FrameGraph

structure NumeralExponent where
  sign : Option Char
  digits : String
deriving DecidableEq, Repr

structure Numeral where
  negative : Bool
  whole : String
  fraction : Option String
  exponent : Option NumeralExponent
deriving DecidableEq, Repr

def digitValue (c : Char) : Nat :=
  c.toNat - '0'.toNat

def digitsValue (cs : List Char) : Nat :=
  cs.foldl (fun n c => 10 * n + digitValue c) 0

namespace Numeral

def text (n : Numeral) : String :=
  (if n.negative then "-" else "") ++ n.whole ++
    (match n.fraction with
      | some digits => "." ++ digits
      | none => "") ++
    (match n.exponent with
      | some e => "e" ++ (match e.sign with
          | some c => String.singleton c
          | none => "") ++ e.digits
      | none => "")

def ofInt (n : Int) : Numeral where
  negative := n < 0
  whole := toString n.natAbs
  fraction := none
  exponent := none

def isPlain (n : Numeral) : Bool :=
  n.fraction.isNone && n.exponent.isNone

def toUInt64? (n : Numeral) : Option UInt64 :=
  let value := digitsValue n.whole.toList
  if n.isPlain && !n.negative && value < Nat.pow 2 64 then some (UInt64.ofNat value) else none

/-- The value of a plain numeral in the signed 64-bit range; `-0` is no integer. -/
def toInt64? (n : Numeral) : Option Int64 :=
  let value := digitsValue n.whole.toList
  if !n.isPlain then none
  else if n.negative then
    if 0 < value && value ≤ Nat.pow 2 63 then some (Int64.ofInt (-(value : Int))) else none
  else if value < Nat.pow 2 63 then some (Int64.ofNat value)
  else none

/-- Appends digits to a significand as long as it stays below `2 ^ 64`; also gives the digits left
out. -/
def takeDigits (significand : Nat) : List Char → Nat × List Char
  | [] => (significand, [])
  | c :: cs =>
    let next := 10 * significand + digitValue c
    if next < Nat.pow 2 64 then takeDigits next cs else (significand, c :: cs)

def exponentValue (n : Numeral) : Int :=
  match n.exponent with
  | none => 0
  | some e =>
    let value : Int := digitsValue e.digits.toList
    if e.sign = some '-' then -value else value

def scaled (n : Numeral) : Nat × Int :=
  let (whole, dropped) := takeDigits 0 n.whole.toList
  let digits := (n.fraction.getD "").toList
  let (significand, left) := takeDigits whole digits
  (significand, dropped.length - (digits.length - left.length : Nat) + n.exponentValue)

def powerOfTen (k : Nat) : Binary64 :=
  Binary64.ofNat (Nat.pow 10 k)

/-- A number below `2 ^ 64` times a power of ten, rounded at every step. Powers below `10 ^ -308`
are divided by in two steps, and below `10 ^ -616` nothing is left. No result is infinite. -/
def scaleByTen (x : Binary64) (k : Int) : Option Binary64 :=
  if x.isZero then some x
  else if 308 < k then none
  else if 0 ≤ k then
    let y := x.mul (powerOfTen k.toNat)
    if y.isFinite then some y else none
  else if -308 ≤ k then some (x.div (powerOfTen (-k).toNat))
  else if -616 ≤ k then some ((x.div (powerOfTen 308)).div (powerOfTen (-k - 308).toNat))
  else some .zero

/-- The binary64 number that the numeral stands for, none beyond the largest finite number. The
digits that fit in 64 bits are scaled by a power of ten, so the last bit may differ from that of the
nearest number. -/
def toBinary64? (n : Numeral) : Option Binary64 :=
  let (significand, k) := n.scaled
  (scaleByTen (Binary64.ofNat significand) k).map fun x => if n.negative then x.neg else x

end Numeral

end FrameGraph
