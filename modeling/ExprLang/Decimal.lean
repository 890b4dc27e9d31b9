import ExprLang.Binary64

/-!
Decimal text of floating-point numbers: the fewest digits that read back as the
same number, and of those the nearest to it. The decimals that read back form
an interval around the number, so the search goes through the decimal grids
from coarse to fine and stops at the first one with a point in the interval.
The two neighbours of the number on a grid are the only points worth a look.
The text never has an exponent, whatever the number of zeros.
-/
namespace ExprLang

/-- The number `coefficient * 10 ^ exponent`. -/
structure Decimal where
  coefficient : Nat
  exponent : Int
deriving DecidableEq

def Decimal.text (x : Decimal) : String :=
  let digits := x.coefficient.repr
  if 0 ≤ x.exponent then digits.pushn '0' x.exponent.toNat
  else
    let places := (-x.exponent).toNat
    let padded := List.replicate (places + 1 - digits.length) '0' ++ digits.toList
    let whole := padded.length - places
    String.ofList (padded.take whole ++ '.' :: padded.drop whole)

namespace Binary64

/-- The unit of the grid of multiples of `10 ^ exponent`, and a quarter of the
unit in the last place of a finite number, both scaled to be whole. -/
def gridUnits (x : Binary64) (exponent : Int) : Nat × Nat :=
  (Nat.pow 10 exponent.toNat <<< (2 - x.scale).toNat,
    Nat.pow 10 (-exponent).toNat <<< (x.scale - 2).toNat)

/-- The quarters of a unit in the last place by which a smaller decimal may miss
a finite number: half a unit, but only a quarter where the numbers below lie
twice as dense. -/
def roomBelow (x : Binary64) : Nat := if x.storedFraction = 0 ∧ 1 < x.storedExponent then 1 else 2

/-- The multiple of `10 ^ exponent` nearest to a positive finite number, if it
reads back as the number. The ends of the interval read back if the
significand is even. Of two multiples equally near the larger is taken. -/
def onGrid? (x : Binary64) (exponent : Int) : Option Nat :=
  let (step, quarter) := x.gridUnits exponent
  let value := 4 * x.significand * quarter
  let lowest := (4 * x.significand - x.roomBelow) * quarter
  let highest := (4 * x.significand + 2) * quarter
  let closed := x.significand % 2 = 0
  let below := value / step
  let above := below + 1
  let belowFits : Bool := lowest < below * step ∨ closed ∧ lowest = below * step
  let aboveFits : Bool := above * step < highest ∨ closed ∧ above * step = highest
  if belowFits && (!aboveFits || value - below * step < above * step - value) then some below
  else if aboveFits then some above
  else none

/-- An exponent whose grid is too coarse to be passed over: no power of ten with
a larger exponent reads back as the number. -/
def coarsest (x : Binary64) : Int :=
  ((x.significand <<< x.scale.toNat >>> (-x.scale).toNat).log2 / 3 : Nat)

def firstOnGrids? (x : Binary64) : Nat → Int → Option Decimal
  | 0, _ => none
  | grids + 1, exponent =>
    match x.onGrid? exponent with
    | some coefficient => some ⟨coefficient, exponent⟩
    | none => firstOnGrids? x grids (exponent - 1)

def exact (x : Binary64) : Decimal :=
  ⟨x.significand <<< x.scale.toNat * Nat.pow 5 (-x.scale).toNat, min 0 x.scale⟩

/-- The shortest decimal that reads back as a positive finite number. The last
grid searched is that of `10 ^ (-324)`, which is finer than all such numbers. -/
def shortest (x : Binary64) : Decimal :=
  (x.firstOnGrids? (x.coarsest + 325).toNat x.coarsest).getD x.exact

def text (x : Binary64) : String :=
  if x.isNaN then "NaN"
  else
    let size := if x.isInfinite then "inf" else if x.isZero then "0" else x.shortest.text
    if x.isNegative then "-" ++ size else size

end Binary64

end ExprLang
