import InterviewPlan.Json.Value

/-!
# Literals of the script language

A value is written into a script as a literal.  Text that begins like a call of a lookup function
is an expression already and is written as it stands.

## Main definitions

* `Script.quote`: a text in double quotation marks
* `Script.literal`: the literal of a value
* `Script.number`, `Script.float`: the text of a floating-point number, and of any value
-/

namespace InterviewPlan

namespace Script

/-- A text in double quotation marks, with a backslash before each backslash and each double
quotation mark. -/
def quote (t : Text) : Text :=
  '"' :: t.flatMap (fun c => if c = '\\' || c = '"' then ['\\', c] else [c]) ++ ['"']

/-- A truth value. -/
def truth (b : Bool) : Text := if b then "True".toList else "False".toList

/-- The literal of a missing value. -/
def nothing : Text := "None".toList

/-- The beginnings of a text that is an expression. -/
def expressionLeads : List Text := ["showifdef(".toList, "user_info(".toList]

/-- Whether a text is an expression rather than data. -/
def isExpression (t : Text) : Bool := expressionLeads.any (·.isPrefixOf t)

/-- Numbers are written positionally with the fewest digits that read back, and an integral number
has no fraction. -/
def numberLayout : Layout where
  positional := none
  pointZero := false
  exponentPlus := false
  tie := .awayFromZero

/-- The text of a floating-point number.  A zero has no sign. -/
def number (x : Binary) : Text :=
  if x.isZero then ['0']
  else if x.isFinite then numberLayout.render x
  else if x.negative then "-inf".toList
  else "inf".toList

/-- The text of a floating-point value. -/
def float : Double → Text
  | .number x => number x
  | .nan => "NaN".toList

mutual

/-- The literal of a value. -/
def literal : Json → Text
  | .null => nothing
  | .bool b => truth b
  | .int n => Text.ofInt n
  | .float x => if x.isFinite then number x else nothing
  | .str s => if isExpression s then s else quote s
  | .arr items => '[' :: Text.joinWith [',', ' '] (literals items) ++ [']']
  | .obj members => '{' :: Text.joinWith [',', ' '] (entries members) ++ ['}']

/-- The literals of the items of a list. -/
def literals : List Json → List Text
  | [] => []
  | value :: rest => literal value :: literals rest

/-- The entries of a mapping: a quoted key and a literal. -/
def entries : List (Text × Json) → List Text
  | [] => []
  | (key, value) :: rest => (quote key ++ ':' :: ' ' :: literal value) :: entries rest

end

end Script

end InterviewPlan
