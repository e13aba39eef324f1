import InterviewPlan.Number.Layout

/-!
# YAML values

A mapping keeps the order of its entries, and its keys may be any values, each of them once.  A tag
that is not part of the format wraps a value.

## Main definitions

* `Yaml.Value`: the values
* `Yaml.Value.same`: equality of values, for which the order of entries does not matter
* `Yaml.Value.text?`, `Yaml.Value.mapping?`, `Yaml.Value.get?`: access through tags
* `Yaml.Mapping.get?`: the value of a key that is a text
-/

namespace InterviewPlan

namespace Yaml

/-- A number: an integer of 64 bits, or a floating-point value. -/
inductive Number where
  | int (n : Int)
  | float (x : Double)

namespace Number

/-- Equality of numbers.  An integer never equals a floating-point number, the two zeros are equal,
and so is what is no number. -/
def same : Number → Number → Bool
  | int m, int n => m = n
  | float (.number x), float (.number y) => x.sameValue y
  | float .nan, float .nan => true
  | _, _ => false

/-- Whether the number is different from zero; what is no number is different. -/
def isNonzero : Number → Bool
  | int n => n ≠ 0
  | float (.number x) => !x.isZero
  | float .nan => true

/-- Numbers as labels always have a fraction or an exponent unless they are integers, and a
positive exponent has no sign. -/
def layout : Layout where
  positional := some (-5, 15)
  pointZero := true
  exponentPlus := false
  tie := .toEven

/-- The text of a number. -/
def render : Number → Text
  | int n => Text.ofInt n
  | float (.number x) =>
    if x.isFinite then layout.render x
    else if x.negative then "-.inf".toList
    else ".inf".toList
  | float .nan => ".nan".toList

end Number

/-- A value. -/
inductive Value where
  | null
  | bool (b : Bool)
  | number (n : Number)
  | str (t : Text)
  | sequence (items : List Value)
  | mapping (entries : List (Value × Value))
  | tagged (tag : Text) (value : Value)

/-- The entries of a mapping. -/
abbrev Mapping := List (Value × Value)

namespace Value

mutual

/-- Equality of values. -/
def same : Value → Value → Bool
  | null, null => true
  | bool a, bool b => a = b
  | number m, number n => m.same n
  | str s, str t => s = t
  | sequence xs, sequence ys => sameItems xs ys
  | mapping xs, mapping ys => xs.length = ys.length && allAmong xs ys
  | tagged s x, tagged t y => s = t && same x y
  | _, _ => false

/-- Equality of sequences. -/
def sameItems : List Value → List Value → Bool
  | [], [] => true
  | x :: xs, y :: ys => same x y && sameItems xs ys
  | _, _ => false

/-- Whether each entry is among others. -/
def allAmong : List (Value × Value) → List (Value × Value) → Bool
  | [], _ => true
  | (k, v) :: rest, others => others.any (fun e => same k e.1 && same v e.2) && allAmong rest others

end

/-- The value without its tags. -/
def untagged : Value → Value
  | tagged _ v => untagged v
  | v => v

/-- The text of a value. -/
def text? (v : Value) : Option Text :=
  match v.untagged with
  | str t => some t
  | _ => none

/-- The entries of a value. -/
def mapping? (v : Value) : Option Mapping :=
  match v.untagged with
  | mapping entries => some entries
  | _ => none

end Value

namespace Mapping

/-- Whether a key is the given text; a tagged text is another key. -/
def isKey (name : Text) : Value → Bool
  | .str t => t = name
  | _ => false

/-- The value of a key that is a text. -/
def get? (name : Text) (m : Mapping) : Option Value := (m.find? (isKey name ·.1)).map (·.2)

/-- Whether the mapping has a key. -/
def hasKey (name : Text) (m : Mapping) : Bool := m.any (isKey name ·.1)

/-- Whether no key stands twice. -/
def keysDiffer : Mapping → Bool
  | [] => true
  | (key, _) :: rest => !rest.any (fun e => key.same e.1) && keysDiffer rest

end Mapping

/-- The value of a key that is a text, in a value that is a mapping. -/
def Value.get? (name : Text) (v : Value) : Option Value := v.mapping?.bind (Mapping.get? name)

end Yaml

end InterviewPlan
