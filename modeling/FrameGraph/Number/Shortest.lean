import FrameGraph.Number.Numeral

/-!
The shortest decimal that rounds to a binary64 number, and the layouts in which it is written.
-/

namespace FrameGraph

inductive TieRule
  | up
  | even
deriving DecidableEq, Repr

structure Decimal where
  significand : Nat
  exponent : Int
deriving DecidableEq, Repr

namespace Binary64

/-- A quarter of the unit in the last place, as a fraction of two natural numbers. -/
def quarterUnit (x : Binary64) : Nat × Nat :=
  (Nat.pow 2 (x.scale - 2).toNat, Nat.pow 2 (2 - x.scale).toNat)

/-- The ends, in quarter units, of the interval of magnitudes that round to this one. Below a power
of two the numbers lie twice as dense. -/
def roundingInterval (x : Binary64) : Nat × Nat :=
  let low := if x.fraction = 0 && 1 < x.exponentField then 1 else 2
  (4 * x.significand - low, 4 * x.significand + 2)

/-- Whether `num / den`, in quarter units, rounds to the number; the ends of the interval do when
the significand is even. -/
def roundsHere (x : Binary64) (num den : Nat) : Bool :=
  let (low, high) := x.roundingInterval
  if x.significand % 2 = 0 then low * den ≤ num && num ≤ high * den
  else low * den < num && num < high * den

/-- The multiple of `10 ^ k` nearest to the number among its two neighbours that round to it. -/
def onGrid? (x : Binary64) (tie : TieRule) (k : Int) : Option Nat :=
  let (num, den) := x.quarterUnit
  -- One step of the grid is `step / unit` quarter units.
  let unit := num * Nat.pow 10 (-k).toNat
  let step := den * Nat.pow 10 k.toNat
  let value := 4 * x.significand * unit
  let below := value / step
  let rest := value % step
  let belowHits := x.roundsHere (below * step) unit
  let aboveHits := x.roundsHere ((below + 1) * step) unit
  if belowHits && aboveHits then
    if 2 * rest < step then some below
    else if step < 2 * rest then some (below + 1)
    else match tie with
      | .up => some (below + 1)
      | .even => some (below + below % 2)
  else if belowHits then some below
  else if aboveHits then some (below + 1)
  else none

/-- The coarsest hit on the grids `10 ^ k`, `10 ^ (k - 1)`, …; after `steps` grids without one, the
exact decimal, which lies on the last. -/
def shortestFrom (x : Binary64) (tie : TieRule) : Nat → Int → Decimal
  | 0, k =>
    ⟨x.significand * Nat.pow 2 x.scale.toNat * Nat.pow 10 (-k).toNat /
      Nat.pow 2 (-x.scale).toNat, k⟩
  | steps + 1, k =>
    match x.onGrid? tie k with
    | some significand => ⟨significand, k⟩
    | none => shortestFrom x tie steps (k - 1)

/-- The decimal with the fewest digits among those that round to the finite number, of these the
nearest. -/
def shortest (x : Binary64) (tie : TieRule) : Decimal :=
  if x.significand = 0 then ⟨0, 0⟩
  else
    let width : Int := x.significand.log2 + 1 + x.scale
    let top := width * 30103 / 100000 + 2
    let bottom := min x.scale 0
    x.shortestFrom tie (top - bottom).toNat top

end Binary64

/-- How a decimal is written: the exponents of its first digit that are written positionally, from
`positionalFrom` to below `positionalBelow`; whether a positive exponent has a sign; and the tie
rule. -/
structure DecimalLayout where
  positionalFrom : Int
  positionalBelow : Int
  plusSign : Bool
  tie : TieRule

namespace DecimalLayout

def zeros (count : Int) : String :=
  String.ofList (List.replicate count.toNat '0')

/-- Positional numerals always have a digit after the point; the others have a fraction only if
there are digits for it. -/
def numeral (layout : DecimalLayout) (negative : Bool) (d : Decimal) : Numeral :=
  let digits := (toString d.significand).toList
  let lead : Int := digits.length - 1 + d.exponent
  if d.significand = 0 then ⟨negative, "0", some "0", none⟩
  else if layout.positionalFrom ≤ lead && lead < layout.positionalBelow then
    if 0 ≤ d.exponent then
      ⟨negative, String.ofList digits ++ zeros d.exponent, some "0", none⟩
    else if 0 ≤ lead then
      ⟨negative, String.ofList (digits.take (lead + 1).toNat),
        some (String.ofList (digits.drop (lead + 1).toNat)), none⟩
    else ⟨negative, "0", some (zeros (-lead - 1) ++ String.ofList digits), none⟩
  else
    let sign := if lead < 0 then some '-' else if layout.plusSign then some '+' else none
    let exponent : NumeralExponent := ⟨sign, toString lead.natAbs⟩
    ⟨negative, String.ofList (digits.take 1),
      if digits.length = 1 then none else some (String.ofList (digits.drop 1)), some exponent⟩

def ofBinary64 (layout : DecimalLayout) (x : Binary64) : Numeral :=
  layout.numeral x.isNegative (x.shortest layout.tie)

end DecimalLayout

end FrameGraph
