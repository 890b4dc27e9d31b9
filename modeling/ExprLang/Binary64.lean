/-!
Floating-point numbers of 64 bits, as bit patterns. A finite number is a
natural significand times a power of two, with a sign. A natural number becomes
the nearest floating-point number, of two equally near ones the one with the
even significand, and infinity from the middle of the last step on.
-/
namespace ExprLang

/-- The integer nearest to a fraction. Halfway between two it is the even one. -/
def divNearest (num den : Nat) : Nat :=
  let low := num / den
  let twice := 2 * (num % den)
  if twice < den then low
  else if den < twice then low + 1
  else low + low % 2

structure Binary64 where
  bits : UInt64
deriving DecidableEq

namespace Binary64

def isNegative (x : Binary64) : Bool := x.bits.toNat.testBit 63

def storedExponent (x : Binary64) : Nat := x.bits.toNat >>> 52 % 2048

def storedFraction (x : Binary64) : Nat := x.bits.toNat % (1 <<< 52)

def isNaN (x : Binary64) : Bool := x.storedExponent = 2047 ∧ x.storedFraction ≠ 0

def isInfinite (x : Binary64) : Bool := x.storedExponent = 2047 ∧ x.storedFraction = 0

def isZero (x : Binary64) : Bool := x.storedExponent = 0 ∧ x.storedFraction = 0

/-- A finite number is `significand * 2 ^ scale`, apart from its sign. -/
def significand (x : Binary64) : Nat :=
  if x.storedExponent = 0 then x.storedFraction else 1 <<< 52 + x.storedFraction

def scale (x : Binary64) : Int := max 1 x.storedExponent - 1075

def sameValue (x y : Binary64) : Bool :=
  !x.isNaN && !y.isNaN && (x.bits == y.bits || x.isZero && y.isZero)

def infinity : Binary64 := ⟨0x7FF0000000000000⟩

/-- The nearest floating-point number. The significand is rounded to 53 binary
digits; a carry out of it moves on to the exponent, as their bits adjoin. -/
def ofNat (n : Nat) : Binary64 :=
  if n = 0 then ⟨0⟩
  else
    let width := n.log2 + 1
    let pattern := (width + 1021) <<< 52 + divNearest (n <<< 53) (1 <<< width)
    if pattern < infinity.bits.toNat then ⟨pattern.toUInt64⟩ else infinity

def ofDigits? (digits : String) : Option Binary64 :=
  if digits.toList ≠ [] ∧ digits.toList.all Char.isDigit then
    some (ofNat (Nat.ofDigitChars 10 digits.toList 0))
  else none

end Binary64

end ExprLang
