import InterviewPlan.Number.Layout

/-!
# JSON values

Objects keep the order of their members, and a value as read may hold a name more than once.
Integers from `-2 ^ 63` to `2 ^ 64 - 1` and floating-point numbers are different values.

## Main definitions

* `Json`: the values
* `Json.ofDouble`: a floating-point value as a JSON value
* `Json.distinct`: the value with each name of an object once, the last value at the first place
* `Json.numberLayout`: how floating-point numbers are written
-/

namespace InterviewPlan

/-- A JSON value. -/
inductive Json where
  | null
  | bool (b : Bool)
  | int (n : Int)
  | float (x : Binary)
  | str (s : Text)
  | arr (items : List Json)
  | obj (members : List (Text × Json))
deriving Inhabited

namespace Json

/-- An object with the members given by names. -/
def object (members : List (String × Json)) : Json :=
  .obj (members.map fun (name, value) => (name.toList, value))

/-- A floating-point value as a JSON value; what is no finite number becomes `null`. -/
def ofDouble : Double → Json
  | .number x => if x.isFinite then .float x else .null
  | .nan => .null

/-- The first member of a name. -/
def member? (name : Text) : Json → Option Json
  | .obj members => members.lookup name
  | _ => none

/-- Add a member.  A name that is present keeps its place and takes the new value. -/
def putMember (name : Text) (value : Json) : List (Text × Json) → List (Text × Json)
  | [] => [(name, value)]
  | (n, v) :: rest =>
    if n = name then (n, value) :: rest else (n, v) :: putMember name value rest

/-- The members with each name once: the last value, at the place of the first. -/
def distinctMembers (members : List (Text × Json)) : List (Text × Json) :=
  members.foldl (fun done (name, value) => putMember name value done) []

mutual

/-- The value in which every object has each name once. -/
def distinct : Json → Json
  | .arr items => .arr (distinctItems items)
  | .obj members => .obj (distinctMembers (distinctValues members))
  | value => value

/-- `distinct` on each value. -/
def distinctItems : List Json → List Json
  | [] => []
  | value :: rest => value.distinct :: distinctItems rest

/-- `distinct` on the value of each member. -/
def distinctValues : List (Text × Json) → List (Text × Json)
  | [] => []
  | (name, value) :: rest => (name, value.distinct) :: distinctValues rest

end

/-- Floating-point numbers always have a fraction or an exponent, so that they read back as what
they are. -/
def numberLayout : Layout where
  positional := some (-5, 15)
  pointZero := true
  exponentPlus := true
  tie := .toEven

end Json

end InterviewPlan
