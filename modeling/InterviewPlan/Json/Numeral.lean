import InterviewPlan.Json.Value
import InterviewPlan.Text.Scan

/-!
# JSON numerals

A numeral without fraction and exponent is an integer where 64 bits hold it.  Every other numeral
is a floating-point number, reached in two roundings: the leading digits that 64 bits hold become
a floating-point number, and that is multiplied or divided by a power of ten.  Further digits
count only for the power.  So the result may differ from the nearest number in the last place.

## Main definitions

* `Json.readNumeral`: a numeral from the front of a text
* `Json.scaled?`: a significand times a power of ten
-/

namespace InterviewPlan

namespace Json

/-- Read digits after `n` as long as 64 bits hold the number; the digits left over follow. -/
def absorb (n : Nat) : Text → Nat × Text
  | [] => (n, [])
  | c :: r =>
    let next := Text.digitsValue n [c]
    if next < 0x10000000000000000 then absorb next r else (n, c :: r)

/-- The floating-point number nearest to a power of ten. -/
def powerOfTen (k : Nat) : Binary := Binary.ofDecimal false ⟨1, k⟩

/-- A significand times a power of ten, in floating-point arithmetic.  A result past the largest
finite number is refused; powers below the table divide twice. -/
def scaled? (significand : Nat) (exponent : Int) : Option Binary :=
  let x := Binary.ofInt significand
  if significand = 0 then some x
  else if 308 < exponent then none
  else if 0 ≤ exponent then
    let y := x.mul (powerOfTen exponent.toNat)
    if y.isFinite then some y else none
  else if -308 ≤ exponent then some (x.div (powerOfTen (-exponent).toNat))
  else if -616 ≤ exponent then
    some ((x.div (powerOfTen 308)).div (powerOfTen (-exponent - 308).toNat))
  else some (.zero false)

/-- The digits of the integer part: a zero stands alone. -/
def readWhole (s : Text) : Option (Text × Text) :=
  match s with
  | '0' :: r => if r.head?.any Char.isDigit then none else some (['0'], r)
  | _ =>
    let digits := s.takeWhile Char.isDigit
    if digits.isEmpty then none else some (digits, s.dropWhile Char.isDigit)

/-- A point and at least one digit, if a point follows; the digits are the result. -/
def readFraction (s : Text) : Option (Option Text × Text) :=
  match s with
  | '.' :: r =>
    let digits := r.takeWhile Char.isDigit
    if digits.isEmpty then none else some (some digits, r.dropWhile Char.isDigit)
  | _ => some (none, s)

/-- A power of ten, if the letter follows. -/
def readExponent (s : Text) : Option (Option Int × Text) :=
  match s with
  | c :: r =>
    if c = 'e' || c = 'E' then
      let (negative, r) : Bool × Text := match r with
        | '-' :: r => (true, r)
        | '+' :: r => (false, r)
        | _ => (false, r)
      let digits := r.takeWhile Char.isDigit
      let power : Int := Text.digitsValue 0 digits
      if digits.isEmpty then none
      else some (some (if negative then -power else power), r.dropWhile Char.isDigit)
    else some (none, s)
  | [] => some (none, s)

/-- An integral numeral whose digits 64 bits hold. -/
def ofIntegral (negative : Bool) (n : Nat) : Json :=
  if !negative then .int n
  else if n = 0 || 0x8000000000000000 < n then .float (Binary.ofInt n).neg
  else .int (-n)

/-- A numeral from the front of a text. -/
def readNumeral : Text.Reader Json := fun s => do
  let (negative, s) : Bool × Text := match s with
    | '-' :: r => (true, r)
    | _ => (false, s)
  let (whole, s) ← readWhole s
  let (fraction, s) ← readFraction s
  let (power, s) ← readExponent s
  let (n, excess) := absorb 0 whole
  if excess.isEmpty && fraction.isNone && power.isNone then
    return (ofIntegral negative n, s)
  let digits := fraction.getD []
  let (n, ignored) := absorb n digits
  let exponent : Int := power.getD 0 + excess.length - (digits.length - ignored.length : Nat)
  let x ← scaled? n exponent
  return (.float (if negative then x.neg else x), s)

end Json

end InterviewPlan
