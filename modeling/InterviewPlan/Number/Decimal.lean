import InterviewPlan.Number.Binary

/-!
# Decimal numbers and the fewest digits that read back

## Main definitions

* `Decimal`: digits and a power of ten
* `Binary.ofDecimal`: the binary number nearest to a decimal one
* `Binary.shortest`: the decimal number with the fewest digits that reads back
-/

namespace InterviewPlan

/-- The decimal number `digits * 10 ^ exponent`. -/
structure Decimal where
  digits : Nat
  exponent : Int
deriving DecidableEq

namespace Decimal

/-- The number of decimal digits of a natural number; zero has none. -/
def digitCount (n : Nat) : Nat := if n = 0 then 0 else (Nat.toDigits 10 n).length

/-- The least power of ten above the number is `10 ^ magnitude`. -/
def magnitude (d : Decimal) : Int := digitCount d.digits + d.exponent

/-- The number without trailing zeros in its digits. -/
def normalize (d : Decimal) : Decimal :=
  let zeros := ((Nat.toDigits 10 d.digits).reverse.takeWhile (· == '0')).length
  if d.digits = 0 then ⟨0, 0⟩ else ⟨d.digits / Nat.pow 10 zeros, d.exponent + zeros⟩

end Decimal

namespace Binary

/-- The binary number nearest to a decimal one.  Decimals beyond every finite number, or below
half the least one, are settled by their magnitude. -/
def ofDecimal (negative : Bool) (d : Decimal) : Binary :=
  if d.digits = 0 || d.magnitude < -330 then zero negative
  else if d.magnitude > 310 then infinity negative
  else ofRatio negative (d.digits * Nat.pow 10 d.exponent.toNat) (Nat.pow 10 (-d.exponent).toNat)

/-- The exact decimal value of a finite magnitude. -/
def exactDecimal (x : Binary) : Decimal :=
  if x.exponent ≥ 0 then ⟨x.numerator, 0⟩
  else ⟨x.significand * Nat.pow 5 (-x.exponent).toNat, x.exponent⟩

/-- The least power of ten above a finite magnitude other than zero is `10 ^ x.magnitude`. -/
def magnitude (x : Binary) : Int :=
  if x.denominator ≤ x.numerator then Decimal.digitCount (x.numerator / x.denominator)
  else
    let inverse := (x.denominator + x.numerator - 1) / x.numerator
    1 - (Decimal.digitCount (inverse - 1) : Int)

/-- The decimal with `count` digits that reads back as `x`, if one of the two neighbours of the
magnitude on that grid does.  Of two that do the nearer is taken, and `tie` settles a tie. -/
def decimalOf? (tie : Tie) (x : Binary) (count : Nat) : Option Decimal :=
  let exponent := x.magnitude - count
  let num := x.numerator * Nat.pow 10 (-exponent).toNat
  let den := x.denominator * Nat.pow 10 exponent.toNat
  let below : Decimal := ⟨num / den, exponent⟩
  let above : Decimal := ⟨num / den + 1, exponent⟩
  let nearest : Decimal := ⟨roundedQuotient num den tie, exponent⟩
  if ofDecimal x.negative nearest = x then some nearest
  else if ofDecimal x.negative below = x then some below
  else if ofDecimal x.negative above = x then some above
  else none

/-- The decimal with the fewest digits that reads back as the finite number `x`, its sign aside.
Seventeen digits are enough; beyond them the exact value stands in. -/
def shortest (tie : Tie) (x : Binary) : Decimal :=
  (((List.range' 1 17).findSome? (decimalOf? tie x)).getD x.exactDecimal).normalize

end Binary

end InterviewPlan
