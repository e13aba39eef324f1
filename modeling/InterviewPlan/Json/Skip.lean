import InterviewPlan.Json.Reader

/-!
# Passing over JSON values

A value that nobody needs is only checked for its outline: its brackets match, its numerals and
strings are spelled rightly.  Its numbers may be of any size, its escapes need not name characters,
and it may nest to any depth.

## Main definitions

* `Json.skipValue`: what follows a value
* `Json.parseMembers`: an object of which only the members of some names are read
-/

namespace InterviewPlan

namespace Json

/-- What follows the closing quotation mark of a string. -/
def skipString : Text → Option Text
  | [] => none
  | '"' :: r => some r
  | '\\' :: 'u' :: a :: b :: c :: d :: r =>
    if (Text.numeral? 16 [a, b, c, d]).isSome then skipString r else none
  | '\\' :: c :: r => if "\"\\/bfnrt".toList.contains c then skipString r else none
  | c :: r => if c.toNat < 0x20 then none else skipString r

/-- What follows a numeral. -/
def skipNumeral (s : Text) : Option Text := do
  let (_, s) ← readWhole (match s with | '-' :: r => r | _ => s)
  let (_, s) ← readFraction s
  let (_, s) ← readExponent s
  return s

/-- What follows a value that holds no other. -/
def skipScalar : Text → Option Text
  | '"' :: r => skipString r
  | 'n' :: 'u' :: 'l' :: 'l' :: r => some r
  | 't' :: 'r' :: 'u' :: 'e' :: r => some r
  | 'f' :: 'a' :: 'l' :: 's' :: 'e' :: r => some r
  | s => skipNumeral s

/-- What follows a name, a colon and a value. -/
def skipMember (value : Text → Option Text) : Text → Option Text
  | '"' :: r => do
    match skipBlanks (← skipString r) with
    | ':' :: r => value (skipBlanks r)
    | _ => none
  | _ => none

/-- Read an item as nothing. -/
def nothing (item : Text → Option Text) : Text.Reader Unit := fun s => (item s).map ((), ·)

/-- What follows a value in which `depth` arrays and objects may be opened. -/
def skipNested (depth : Nat) (s : Text) : Option Text :=
  match depth, s with
  | depth + 1, '[' :: r =>
    (Text.Reader.enclosed skipBlanks (nothing (skipNested depth)) ']' r).map (·.2)
  | depth + 1, '{' :: r =>
    (Text.Reader.enclosed skipBlanks (nothing (skipMember (skipNested depth))) '}' r).map (·.2)
  | _, _ => skipScalar s

/-- What follows a value.  It cannot nest deeper than the text is long. -/
def skipValue (s : Text) : Option Text := skipNested s.length s

/-- A name, a colon and a value, which is read only under the given names and is a null under
others. -/
def readSome (names : List Text) (depth : Nat) : Text.Reader (Text × Json)
  | '"' :: r => do
    let (name, r) ← readString r
    match skipBlanks r with
    | ':' :: r =>
      if names.contains name then
        let (value, r) ← readValue depth (skipBlanks r)
        return ((name, value), r)
      else return ((name, .null), ← skipValue (skipBlanks r))
    | _ => none
  | _ => none

/-- A whole text as one value.  If that is an object, only its members of the given names are read,
and the others are nulls. -/
def parseMembers (names : List Text) (s : Text) : Option Json :=
  match skipBlanks s with
  | '{' :: r => do
    let (members, rest) ←
      Text.Reader.enclosed skipBlanks (readSome names (depthLimit - 1)) '}' r
    if (skipBlanks rest).isEmpty then some (.obj members) else none
  | _ => parse s

end Json

end InterviewPlan
