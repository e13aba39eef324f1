import InterviewPlan.Json.Numeral

/-!
# Reading JSON text

The strict grammar: no comments, no trailing commas, no bare control characters and no lone
surrogates in strings.  Arrays and objects nest at most 127 deep.

## Main definitions

* `Json.readString`: a string from the front of a text
* `Json.readValue`: a value from the front of a text
* `Json.parse`: a whole text as one value
-/

namespace InterviewPlan

namespace Json

/-- Drop the blanks of the format. -/
def skipBlanks (s : Text) : Text :=
  s.dropWhile fun c => c == ' ' || c == '\n' || c == '\t' || c == '\r'

/-- Four hexadecimal digits. -/
def readUnit : Text.Reader Nat
  | a :: b :: c :: d :: r => (Text.numeral? 16 [a, b, c, d]).map (·, r)
  | _ => none

/-- The character of an escape, from the character after the backslash on.  A leading surrogate
needs its trailing one. -/
def readEscape : Text.Reader Char
  | '"' :: r => some ('"', r)
  | '\\' :: r => some ('\\', r)
  | '/' :: r => some ('/', r)
  | 'b' :: r => some ('\x08', r)
  | 'f' :: r => some ('\x0c', r)
  | 'n' :: r => some ('\n', r)
  | 'r' :: r => some ('\r', r)
  | 't' :: r => some ('\t', r)
  | 'u' :: r => do
    let (lead, r) ← readUnit r
    -- what is no leading surrogate has to be a character by itself
    if lead < 0xD800 || 0xDC00 ≤ lead then
      return (← Text.charOf? lead, r)
    match r with
    | '\\' :: 'u' :: r =>
      let (trail, r) ← readUnit r
      if trail < 0xDC00 || 0xE000 ≤ trail then none
      else return (← Text.charOf? (0x10000 + (lead - 0xD800) * 0x400 + (trail - 0xDC00)), r)
    | _ => none
  | _ => none

/-- The characters of a string and what follows its closing quotation mark. -/
def readString (s : Text) : Option (Text × Text) :=
  match s with
  | [] => none
  | '"' :: r => some ([], r)
  | '\\' :: r =>
    match readEscape r with
    | none => none
    | some (c, rest) =>
      -- an escape is never longer than what it is read from; the check lets the recursion end
      if rest.length ≤ r.length then (readString rest).map fun (cs, t) => (c :: cs, t) else none
  | c :: r =>
    if c.toNat < 0x20 then none else (readString r).map fun (cs, t) => (c :: cs, t)
termination_by s.length

/-- A value that holds no other. -/
def readScalar (s : Text) : Option (Json × Text) :=
  match s with
  | '"' :: r => (readString r).map fun (t, rest) => (.str t, rest)
  | 'n' :: 'u' :: 'l' :: 'l' :: r => some (.null, r)
  | 't' :: 'r' :: 'u' :: 'e' :: r => some (.bool true, r)
  | 'f' :: 'a' :: 'l' :: 's' :: 'e' :: r => some (.bool false, r)
  | _ => readNumeral s

/-- A name, a colon and a value. -/
def readMember (value : Text.Reader Json) : Text.Reader (Text × Json)
  | '"' :: r => do
    let (name, r) ← readString r
    match skipBlanks r with
    | ':' :: r =>
      let (v, r) ← value (skipBlanks r)
      return ((name, v), r)
    | _ => none
  | _ => none

/-- A value from the front of a text in which `depth` arrays and objects may still be opened. -/
def readValue (depth : Nat) (s : Text) : Option (Json × Text) :=
  match depth, s with
  | depth + 1, '[' :: r =>
    (Text.Reader.enclosed skipBlanks (readValue depth) ']' r).map
      fun (items, rest) => (.arr items, rest)
  | depth + 1, '{' :: r =>
    (Text.Reader.enclosed skipBlanks (readMember (readValue depth)) '}' r).map
      fun (members, rest) => (.obj members, rest)
  | _, _ => readScalar s

/-- How deep arrays and objects may nest. -/
def depthLimit : Nat := 127

/-- A whole text as one value; names that stand more than once in an object are all kept. -/
def parse (s : Text) : Option Json := do
  let (value, rest) ← readValue depthLimit (skipBlanks s)
  if (skipBlanks rest).isEmpty then some value else none

end Json

end InterviewPlan
