import InterviewPlan.Json.Value

/-!
# Writing JSON text

## Main definitions

* `Json.quoted`: a string with its escapes
* `Json.compact`: a value on one line, without blanks
* `Json.pretty`: a value with a line for each item and an indentation of two spaces a level
-/

namespace InterviewPlan

namespace Json

/-- A lower-case hexadecimal digit. -/
def hexDigit (n : Nat) : Char := Nat.digitChar n

/-- A character inside a string: quotation mark, backslash and the control characters below the
blank are escaped. -/
def escaped (c : Char) : Text :=
  match c with
  | '"' => ['\\', '"']
  | '\\' => ['\\', '\\']
  | '\x08' => ['\\', 'b']
  | '\x0c' => ['\\', 'f']
  | '\n' => ['\\', 'n']
  | '\r' => ['\\', 'r']
  | '\t' => ['\\', 't']
  | c =>
    if c.toNat < 0x20 then
      ['\\', 'u', '0', '0', hexDigit (c.toNat / 16), hexDigit (c.toNat % 16)]
    else [c]

/-- A string in quotation marks. -/
def quoted (s : Text) : Text := '"' :: s.flatMap escaped ++ ['"']

/-- A value that holds no other; an infinity has no text of its own and is written `null`. -/
def scalar : Json → Text
  | .bool b => if b then "true".toList else "false".toList
  | .int n => Text.ofInt n
  | .float x => if x.isFinite then numberLayout.render x else "null".toList
  | .str s => quoted s
  | _ => "null".toList

mutual

/-- The value on one line. -/
def compact : Json → Text
  | .arr items => '[' :: Text.joinWith [','] (compactItems items) ++ [']']
  | .obj members => '{' :: Text.joinWith [','] (compactMembers members) ++ ['}']
  | value => scalar value

/-- The items on one line each. -/
def compactItems : List Json → List Text
  | [] => []
  | value :: rest => value.compact :: compactItems rest

/-- The members on one line each. -/
def compactMembers : List (Text × Json) → List Text
  | [] => []
  | (name, value) :: rest => (quoted name ++ ':' :: value.compact) :: compactMembers rest

end

/-- The entries of an array or object between its brackets, one a line and one level deeper; an
empty one is a pair of brackets. -/
def bracketed (opening closing : Char) (level : Nat) (entries : List Text) : Text :=
  if entries.isEmpty then [opening, closing]
  else
    let indent (n : Nat) : Text := '\n' :: List.replicate (2 * n) ' '
    opening :: indent (level + 1) ++ Text.joinWith (',' :: indent (level + 1)) entries
      ++ indent level ++ [closing]

mutual

/-- The value with one entry a line, `level` levels deep. -/
def prettyAt (level : Nat) : Json → Text
  | .arr items => bracketed '[' ']' level (prettyItems (level + 1) items)
  | .obj members => bracketed '{' '}' level (prettyMembers (level + 1) members)
  | value => scalar value

/-- The items of an array. -/
def prettyItems (level : Nat) : List Json → List Text
  | [] => []
  | value :: rest => value.prettyAt level :: prettyItems level rest

/-- The members of an object. -/
def prettyMembers (level : Nat) : List (Text × Json) → List Text
  | [] => []
  | (name, value) :: rest =>
    (quoted name ++ ':' :: ' ' :: value.prettyAt level) :: prettyMembers level rest

end

/-- The value with one entry a line. -/
def pretty (value : Json) : Text := value.prettyAt 0

end Json

end InterviewPlan
