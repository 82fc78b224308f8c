/-!
IEEE 754 binary64 numbers as 64-bit words. Arithmetic is exact on natural numbers and rounds once,
to the nearest number and at a tie to the even one.
-/

namespace FrameGraph

/-- A binary64 number, given by its word; every NaN word is a value of its own. -/
structure Binary64 where
  bits : UInt64
deriving DecidableEq, Repr

namespace Binary64

def isNegative (x : Binary64) : Bool :=
  Nat.pow 2 63 ≤ x.bits.toNat

def exponentField (x : Binary64) : Nat :=
  x.bits.toNat / Nat.pow 2 52 % Nat.pow 2 11

def fraction (x : Binary64) : Nat :=
  x.bits.toNat % Nat.pow 2 52

def isFinite (x : Binary64) : Bool :=
  x.exponentField < 2047

def isNaN (x : Binary64) : Bool :=
  !x.isFinite && x.fraction != 0

/-- A finite number has the magnitude `significand * 2 ^ scale`. -/
def significand (x : Binary64) : Nat :=
  if x.exponentField = 0 then x.fraction else x.fraction + Nat.pow 2 52

def scale (x : Binary64) : Int :=
  (max x.exponentField 1 : Nat) - 1075

def isZero (x : Binary64) : Bool :=
  x.isFinite && x.significand == 0

def ofMagnitude (negative : Bool) (magnitude : Nat) : Binary64 :=
  ⟨UInt64.ofNat (magnitude + if negative then Nat.pow 2 63 else 0)⟩

def zero : Binary64 := ofMagnitude false 0

def infinityMagnitude : Nat :=
  2047 * Nat.pow 2 52

def infinity (negative : Bool) : Binary64 :=
  ofMagnitude negative infinityMagnitude

def nan : Binary64 :=
  ofMagnitude false (infinityMagnitude + Nat.pow 2 51)

/-- The quotient rounded to the nearest natural number, at a tie to the even one. -/
def roundQuotient (num den : Nat) : Nat :=
  let quotient := num / den
  let twice := 2 * (num % den)
  if twice < den then quotient
  else if den < twice then quotient + 1
  else quotient + quotient % 2

/-- The power of two that one unit in the last place of `num / den` stands for. -/
def unitScale (num den : Nat) : Int :=
  let width : Int := (num.log2 : Int) - den.log2
  let top :=
    if den * Nat.pow 2 width.toNat ≤ num * Nat.pow 2 (-width).toNat then width else width - 1
  max (top - 52) (-1074)

/-- The magnitude bits of the number nearest to `num / den`. -/
def roundRatio (num den : Nat) : Nat :=
  if num = 0 then 0
  else
    let unit := unitScale num den
    let units := roundQuotient (num * Nat.pow 2 (-unit).toNat) (den * Nat.pow 2 unit.toNat)
    min ((unit + 1074).toNat * Nat.pow 2 52 + units) infinityMagnitude

def ofRatio (negative : Bool) (num den : Nat) : Binary64 :=
  ofMagnitude negative (roundRatio num den)

def ofNat (n : Nat) : Binary64 :=
  ofRatio false n 1

def neg (x : Binary64) : Binary64 :=
  ⟨x.bits ^^^ 0x8000000000000000⟩

def mul (x y : Binary64) : Binary64 :=
  let scale := x.scale + y.scale
  ofRatio (x.isNegative != y.isNegative)
    (x.significand * y.significand * Nat.pow 2 scale.toNat) (Nat.pow 2 (-scale).toNat)

def div (x y : Binary64) : Binary64 :=
  let scale := x.scale - y.scale
  ofRatio (x.isNegative != y.isNegative)
    (x.significand * Nat.pow 2 scale.toNat) (y.significand * Nat.pow 2 (-scale).toNat)

example : (ofNat 1).bits = 0x3FF0000000000000 := by decide
example : (ofRatio false 1 10).bits = 0x3FB999999999999A := by decide
example : (ofNat (Nat.pow 2 53 + 1)) = ofNat (Nat.pow 2 53) := by decide
example : ofRatio true 0 1 = ⟨0x8000000000000000⟩ := by decide

end Binary64

end FrameGraph
