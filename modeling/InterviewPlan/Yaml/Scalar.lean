import InterviewPlan.Yaml.Value

/-!
# What scalars mean

A plain scalar may be a null, a truth value or a number; every other scalar is a text, unless its
tag demands a type.

## Main definitions

* `Yaml.integer?`, `Yaml.float?`: numbers
* `Yaml.plainValue?`: the value of a plain scalar without a tag
* `Yaml.scalarValue?`: the value of a scalar
-/

namespace InterviewPlan

namespace Yaml

/-- Whether a plain scalar spells a null. -/
def isNull (t : Text) : Bool :=
  ["null".toList, "Null".toList, "NULL".toList, "~".toList].contains t

/-- The truth value that a plain scalar spells. -/
def truth? (t : Text) : Option Bool :=
  if ["true".toList, "True".toList, "TRUE".toList].contains t then some true
  else if ["false".toList, "False".toList, "FALSE".toList].contains t then some false
  else none

/-- Whether digits begin with a zero that does not stand alone. -/
def hasLeadingZero (t : Text) : Bool :=
  match t with
  | '0' :: c :: r => (c :: r).all Char.isDigit
  | _ => false

/-- An unsigned integer: decimal, or hexadecimal, octal or binary behind a mark. -/
def unsigned? (t : Text) : Option Nat :=
  match t with
  | '0' :: 'x' :: r => Text.numeral? 16 r
  | '0' :: 'o' :: r => Text.numeral? 8 r
  | '0' :: 'b' :: r => Text.numeral? 2 r
  | _ => if hasLeadingZero t then none else Text.numeral? 10 t

/-- An integer of 128 bits, perhaps with a sign. -/
def integer? (t : Text) : Option Int :=
  match t with
  | '-' :: r => do
    let n ← unsigned? r
    if n ≤ 0x80000000000000000000000000000000 then some (-n) else none
  | _ => do
    let n ← unsigned? (if t.head? = some '+' then t.tail else t)
    if n < 0x100000000000000000000000000000000 then some n else none

/-- The value of an integer; more than 64 bits are refused. -/
def integerValue? (n : Int) : Option Value :=
  if -0x8000000000000000 ≤ n ∧ n < 0x10000000000000000 then some (.number (.int n)) else none

/-- An exponent: its letter, perhaps a sign, and digits, up to the end. -/
def exponent? (t : Text) : Option Int :=
  match t with
  | [] => some 0
  | c :: r =>
    if c = 'e' || c = 'E' then
      match r with
      | '-' :: r => (Text.numeral? 10 r).map fun n => -(n : Int)
      | '+' :: r => (Text.numeral? 10 r).map fun n => (n : Int)
      | r => (Text.numeral? 10 r).map fun n => (n : Int)
    else none

/-- A decimal fraction: digits around a point, of which one side may be missing, and an exponent. -/
def decimal? (t : Text) : Option Decimal := do
  let whole := t.takeWhile Char.isDigit
  let rest := t.dropWhile Char.isDigit
  let (fraction, rest) : Text × Text := match rest with
    | '.' :: r => (r.takeWhile Char.isDigit, r.dropWhile Char.isDigit)
    | _ => ([], rest)
  if whole.isEmpty && fraction.isEmpty then none
  let exponent ← exponent? rest
  return ⟨Text.digitsValue (Text.digitsValue 0 whole) fraction, exponent - fraction.length⟩

/-- The unsigned spellings of infinity. -/
def isInfinity (t : Text) : Bool := [".inf".toList, ".Inf".toList, ".INF".toList].contains t

/-- A floating-point value.  A decimal fraction past the largest finite number is none. -/
def float? (t : Text) : Option Double :=
  let (negative, unsigned) : Bool × Text := match t with
    | '-' :: r => (true, r)
    | '+' :: r => (false, r)
    | _ => (false, t)
  if isInfinity unsigned then some (.number (.infinity negative))
  else if [".nan".toList, ".NaN".toList, ".NAN".toList].contains t then some .nan
  else do
    let x := Binary.ofDecimal negative (← decimal? unsigned)
    if x.isFinite then some (.number x) else none

/-- The value of a plain scalar without a tag. -/
def plainValue? (t : Text) : Option Value :=
  if t.isEmpty || isNull t then some .null
  else match truth? t with
    | some b => some (.bool b)
    | none =>
      match integer? t with
      | some n => integerValue? n
      | none =>
        let unsigned := if t.head?.any (fun c => c == '-' || c == '+') then t.tail else t
        let number := if hasLeadingZero unsigned then none else float? t
        some ((number.map fun x => .number (.float x)).getD (.str t))

/-- The beginning of the tags of the format. -/
def coreTag (name : String) : Text := "tag:yaml.org,2002:".toList ++ name.toList

/-- The name of a tag that wraps a value: what follows its exclamation mark, or the mark alone. -/
def wrapper? : Text → Option Text
  | ['!'] => some ['!']
  | '!' :: name => some name
  | _ => none

/-- The value of a scalar.  The tags of the format for truth values, numbers and nulls demand one,
and other tags of the format make a text of every scalar. -/
def scalarValue? (tag : Option Text) (t : Text) (plain : Bool) : Option Value :=
  let untyped := if plain then plainValue? t else some (.str t)
  match tag with
  | none => untyped
  | some tag =>
    match wrapper? tag with
    | some name => untyped.map (.tagged name)
    | none =>
      if tag = coreTag "bool" then (truth? t).map .bool
      else if tag = coreTag "int" then (integer? t).bind integerValue?
      else if tag = coreTag "float" then (float? t).map fun x => .number (.float x)
      else if tag = coreTag "null" then if isNull t then some .null else none
      else some (.str t)

end Yaml

end InterviewPlan
