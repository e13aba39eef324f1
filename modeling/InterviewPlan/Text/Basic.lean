import InterviewPlan.Text.Blank

/-!
# Searching, joining and measuring texts

## Main definitions

* `Text.byteSize`: the length of a text in UTF-8, the unit of spans
* `Text.occursIn`, `Text.suffixes`: search for a part of a text
* `Text.lower`: the text with its ASCII letters in lower case
* `Text.joinWith`: texts joined by a separator
* `Text.parts`: the parts between the occurrences of a character
* `Text.before`: the order of texts by code points
-/

namespace InterviewPlan

namespace Text

/-- The number of bytes that the text takes in UTF-8. -/
def byteSize : Text → Nat
  | [] => 0
  | c :: r => c.utf8Size + byteSize r

/-- The text and everything that is left when a beginning of it is dropped, longest first. -/
def suffixes : Text → List Text
  | [] => [[]]
  | c :: r => (c :: r) :: suffixes r

/-- Whether `part` stands somewhere in the text. -/
def occursIn (part t : Text) : Bool := (suffixes t).any part.isPrefixOf

/-- The text with its ASCII letters in lower case; all other characters stay. -/
def lower (t : Text) : Text := t.map Char.toLower

/-- The texts joined by a separator. -/
def joinWith (separator : Text) (parts : List Text) : Text := separator.intercalate parts

/-- What follows `start` in a text that begins with it, the case of ASCII letters aside. -/
def afterIgnoringCase? (start t : Text) : Option Text :=
  if lower (t.take start.length) = start then some (t.drop start.length) else none

/-- What precedes `ending` in a text that ends with it. -/
def beforeEnd? (ending t : Text) : Option Text :=
  (ending.reverse.isPrefixOf? t.reverse).map List.reverse

/-- What precedes and what follows the first occurrence of `part`. -/
def splitAt? (part : Text) : Text → Option (Text × Text)
  | [] => if part.isEmpty then some ([], []) else none
  | c :: r =>
    match part.isPrefixOf? (c :: r) with
    | some rest => some ([], rest)
    | none => (splitAt? part r).map fun (before, rest) => (c :: before, rest)

/-- The parts of a text between the occurrences of a character; a text without it is one part. -/
def parts (separator : Char) : Text → List Text
  | [] => [[]]
  | c :: r =>
    if c = separator then [] :: parts separator r
    else match parts separator r with
      | [] => [[c]]
      | part :: more => (c :: part) :: more

/-- The decimal text of a natural number. -/
def ofNat (n : Nat) : Text := Nat.toDigits 10 n

/-- The decimal text of an integer. -/
def ofInt : Int → Text
  | .ofNat n => ofNat n
  | .negSucc n => '-' :: ofNat (n + 1)

/-- The number written by decimal digits, read from the left after `n`. -/
def digitsValue (n : Nat) (t : Text) : Nat :=
  t.foldl (fun n c => 10 * n + (c.toNat - '0'.toNat)) n

/-- The value of a digit in bases up to sixteen, in either case. -/
def hexDigit? (c : Char) : Option Nat :=
  if '0' ≤ c ∧ c ≤ '9' then some (c.toNat - '0'.toNat)
  else if 'a' ≤ c ∧ c ≤ 'f' then some (c.toNat - 'a'.toNat + 10)
  else if 'A' ≤ c ∧ c ≤ 'F' then some (c.toNat - 'A'.toNat + 10)
  else none

/-- The number written by the digits of a base up to sixteen; at least one digit is needed. -/
def numeral? (base : Nat) (t : Text) : Option Nat :=
  if t.isEmpty then none
  else t.foldlM (fun n c => do
    let d ← hexDigit? c
    if d < base then some (base * n + d) else none) 0

/-- The character of a code point, when it is one: surrogates and numbers above the last plane
are not. -/
def charOf? (n : Nat) : Option Char :=
  if h : n.isValidChar then some (Char.ofNatAux n h) else none

/-- Whether the first text stands before the second by code points, which is also the order of
their UTF-8 bytes. -/
def before : Text → Text → Bool
  | _, [] => false
  | [], _ :: _ => true
  | a :: s, b :: t => a.toNat < b.toNat || (a == b && before s t)

end Text

end InterviewPlan
