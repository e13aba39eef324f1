/-!
# Binary floating-point numbers

The numbers of the 64-bit binary format other than "not a number", on exact integer arithmetic.
A magnitude is held as its rank: the magnitudes of the format, from zero to infinity, are
numbered in ascending order, and that number is also the bit pattern without the sign.  So two
numbers are equal exactly when sign and rank are, and rounding up past a power of two is the
successor of a rank.

## Main definitions

* `Binary`: a sign and a rank
* `Binary.numerator`, `Binary.denominator`: the magnitude as a fraction
* `Binary.ofRatio`: the nearest number to a fraction, ties to the even rank
* `Binary.mul`, `Binary.div`: the exact result, rounded once
* `Binary.roundToInteger`: the nearest integer, halves away from zero
* `Double`: all values of the format
-/

namespace InterviewPlan

/-- Which neighbour a value halfway between two of them is rounded to. -/
inductive Tie where
  | toEven
  | awayFromZero
deriving DecidableEq

/-- The integer nearest to `num / den`. -/
def roundedQuotient (num den : Nat) (tie : Tie) : Nat :=
  let q := num / den
  match compare (2 * (num % den)) den, tie with
  | .lt, _ => q
  | .gt, _ => q + 1
  | .eq, .awayFromZero => q + 1
  | .eq, .toEven => if q % 2 = 0 then q else q + 1

/-- How many magnitudes share an exponent: `2 ^ 52`. -/
def magnitudesPerExponent : Nat := 0x10000000000000

/-- A number of the 64-bit binary format: a sign, and the rank of its magnitude among the
magnitudes of the format.  The last rank is infinity. -/
structure Binary where
  negative : Bool
  rank : Nat
  rank_le : rank ≤ 2047 * magnitudesPerExponent
deriving DecidableEq

namespace Binary

/-- The rank of infinity. -/
def infinityRank : Nat := 2047 * magnitudesPerExponent

/-- The number of a rank; ranks past infinity are infinity. -/
def ofRank (negative : Bool) (rank : Nat) : Binary :=
  ⟨negative, min rank infinityRank, Nat.min_le_right ..⟩

/-- Zero, with its sign. -/
def zero (negative : Bool) : Binary := ofRank negative 0

/-- Infinity, with its sign. -/
def infinity (negative : Bool) : Binary := ofRank negative infinityRank

/-- Whether the number is neither infinity. -/
def isFinite (x : Binary) : Bool := x.rank < infinityRank

/-- Whether the number is one of the two zeros. -/
def isZero (x : Binary) : Bool := x.rank = 0

/-- The number with the opposite sign. -/
def neg (x : Binary) : Binary := ⟨!x.negative, x.rank, x.rank_le⟩

/-- The two zeros count as one number. -/
def sameValue (x y : Binary) : Bool := x = y || (x.isZero && y.isZero)

/-- The integer `m` of a finite magnitude `m * 2 ^ e`. -/
def significand (x : Binary) : Nat :=
  if x.rank < magnitudesPerExponent then x.rank
  -- the leading bit is no part of the rank
  else magnitudesPerExponent + x.rank % magnitudesPerExponent

/-- The integer `e` of a finite magnitude `m * 2 ^ e`. -/
def exponent (x : Binary) : Int := max (x.rank / magnitudesPerExponent : Nat) 1 - 1075

/-- The numerator of a finite magnitude. -/
def numerator (x : Binary) : Nat := x.significand * Nat.pow 2 x.exponent.toNat

/-- The denominator of a finite magnitude, a power of two. -/
def denominator (x : Binary) : Nat := Nat.pow 2 (-x.exponent).toNat

/-- The exponent `e` for which `num / den` lies from `2 ^ 52` to `2 ^ 53` units of `2 ^ e`; it
does not fall below that of the least magnitudes. -/
def ratioExponent (num den : Nat) : Int :=
  let e : Int := (num.log2 : Int) - den.log2 - 52
  -- the difference of the logarithms gives the exponent or one more
  let short := num * Nat.pow 2 (-e).toNat < den * Nat.pow 2 (e.toNat + 52)
  max (if short then e - 1 else e) (-1074)

/-- The number nearest to `num / den`, ties to the even rank.  A magnitude past the largest
finite one by half a unit or more becomes infinity. -/
def ofRatio (negative : Bool) (num den : Nat) : Binary :=
  if num = 0 then zero negative
  else
    let e := ratioExponent num den
    let units := roundedQuotient (num * Nat.pow 2 (-e).toNat) (den * Nat.pow 2 e.toNat) .toEven
    -- the leading bit of the units counts as one exponent; where rounding has made them one bit
    -- longer, they count as two
    ofRank negative (units + (e + 1074).toNat * magnitudesPerExponent)

/-- The number nearest to an integer. -/
def ofInt (n : Int) : Binary := ofRatio (n < 0) n.natAbs 1

/-- The product, rounded once.  At least one factor is finite and not zero. -/
def mul (x y : Binary) : Binary :=
  let negative := x.negative != y.negative
  if x.isFinite && y.isFinite then
    ofRatio negative (x.numerator * y.numerator) (x.denominator * y.denominator)
  else infinity negative

/-- The quotient, rounded once.  The divisor is finite and not zero. -/
def div (x y : Binary) : Binary :=
  let negative := x.negative != y.negative
  if x.isFinite then
    ofRatio negative (x.numerator * y.denominator) (x.denominator * y.numerator)
  else infinity negative

/-- The nearest integer, halves away from zero; the sign stays, also that of a zero. -/
def roundToInteger (x : Binary) : Binary :=
  if x.exponent ≥ 0 then x
  else ofRatio x.negative (roundedQuotient x.significand x.denominator .awayFromZero) 1

end Binary

/-- A value of the 64-bit binary format: a number, or no number.  The format has many values that
are no number; whatever is written, they are written alike, and count as one. -/
inductive Double where
  | number (x : Binary)
  | nan
deriving DecidableEq

namespace Double

/-- Whether the value is a number other than the infinities. -/
def isFinite : Double → Bool
  | number x => x.isFinite
  | nan => false

theorem exists_of_isFinite {value : Double} (h : value.isFinite = true) :
    ∃ x, value = number x ∧ x.isFinite = true := by
  cases value with
  | number x => exact ⟨x, rfl, h⟩
  | nan => cases h

/-- The nearest integer, halves away from zero; what is no number stays none. -/
def roundToInteger : Double → Double
  | number x => number x.roundToInteger
  | nan => nan

end Double

end InterviewPlan
