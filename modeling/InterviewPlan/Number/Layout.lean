import InterviewPlan.Number.Decimal
import InterviewPlan.Text.Basic

/-!
# Laying out decimal numbers

A finite number is written with the fewest digits that read back.  Where the digits go is a
`Layout`: the decisions of one output format.

## Main definitions

* `Layout`: positional range, fraction of integral numbers, sign of the exponent
* `Layout.render`: the text of a finite number
-/

namespace InterviewPlan

/-- The decisions of an output format for numbers. -/
structure Layout where
  /-- The least and the greatest exponent of a leading digit that is written positionally;
  without one, every number is. -/
  positional : Option (Int × Int)
  /-- Whether an integral number in positional form ends in `.0`. -/
  pointZero : Bool
  /-- Whether a positive exponent is signed. -/
  exponentPlus : Bool
  /-- Which of two equally near decimals is chosen. -/
  tie : Tie

namespace Layout

/-- The digits in positional form: zeros after them, the point inside, or zeros before them. -/
def plain (l : Layout) (d : Decimal) : Text :=
  let digits := Text.ofNat d.digits
  if d.exponent ≥ 0 then
    digits ++ List.replicate d.exponent.toNat '0' ++ if l.pointZero then ['.', '0'] else []
  else
    let fraction := (-d.exponent).toNat
    -- at least one digit stands in front of the point
    let padded := List.replicate (fraction + 1 - digits.length) '0' ++ digits
    let whole := padded.length - fraction
    padded.take whole ++ '.' :: padded.drop whole

/-- The digits with a power of ten: one digit, the others after a point, and the exponent. -/
def scientific (l : Layout) (d : Decimal) : Text :=
  let exponent := d.magnitude - 1
  let power := if exponent ≥ 0 && l.exponentPlus then '+' :: Text.ofInt exponent
    else Text.ofInt exponent
  match Text.ofNat d.digits with
  | first :: c :: rest => first :: '.' :: c :: rest ++ 'e' :: power
  | digits => digits ++ 'e' :: power

/-- Whether the digits are written in positional form. -/
def isPlain (l : Layout) (d : Decimal) : Bool :=
  match l.positional with
  | none => true
  | some (least, greatest) => least < d.magnitude && d.magnitude ≤ greatest + 1

/-- The text of a finite number. -/
def render (l : Layout) (x : Binary) : Text :=
  let d := if x.isZero then ⟨0, 0⟩ else x.shortest l.tie
  let digits := if d.digits = 0 || l.isPlain d then l.plain d else l.scientific d
  if x.negative then '-' :: digits else digits

end Layout

end InterviewPlan
