import InterviewPlan.Json.Skip
import InterviewPlan.Plan.Step

/-!
# Plans as JSON

A step is an object whose member `type` holds the tag of its kind, or an array of the tag and the
fields by position.  Members that a step does not have are ignored, and a member that it has must
not be repeated.  Lists of steps may be missing, and the else-branch and the flag may also be
`null`.

## Main definitions

* `Step.toJson`, `Plan.toJson`: the written form, `type` first
* `Step.ofJson?`, `Plan.ofJson?`: reading
* `Plan.parse?`: the plan in a JSON text
-/

namespace InterviewPlan

/-! ### Writing -/

/-- The arguments of a snapshot as JSON. -/
def Snapshot.toJson (s : Snapshot) : Json :=
  .object [("persistent", .bool s.persistent), ("data", .obj s.data)]

mutual

/-- The step as JSON: the tag first, then the fields; an absent else-branch or flag is left
out. -/
def Step.toJson : Step → Json
  | .ask var => .object [("type", .str Kind.ask.tag), ("var", .str var)]
  | .enter name => .object [("type", .str Kind.enter.tag), ("name", .str name)]
  | .progress value => .object [("type", .str Kind.progress.tag), ("value", .ofDouble value)]
  | .gather list => .object [("type", .str Kind.gather.tag), ("list", .str list)]
  | .branch cond yes none =>
    .object [("type", .str Kind.branch.tag), ("cond", .str cond), ("then", .arr (stepsToJson yes))]
  | .branch cond yes (some no) =>
    .object [("type", .str Kind.branch.tag), ("cond", .str cond), ("then", .arr (stepsToJson yes)),
      ("else", .arr (stepsToJson no))]
  | .loop item iter body =>
    .object [("type", .str Kind.loop.tag), ("item", .str item), ("iter", .str iter),
      ("body", .arr (stepsToJson body))]
  | .once name none => .object [("type", .str Kind.once.tag), ("name", .str name)]
  | .once name (some flag) =>
    .object [("type", .str Kind.once.tag), ("name", .str name), ("flag", .str flag)]
  | .snapshot args => .object [("type", .str Kind.snapshot.tag), ("args", args.toJson)]

/-- Each step as JSON. -/
def stepsToJson : List Step → List Json
  | [] => []
  | step :: rest => step.toJson :: stepsToJson rest

end

/-- The plan as JSON. -/
def Plan.toJson (plan : Plan) : Json :=
  .object [("id", .str plan.id), ("mandatory", .bool plan.mandatory),
    ("nodes", .arr (stepsToJson plan.steps))]

/-! ### Reading -/

namespace Codec

/-- A member of a step: its value, and the steps of the value when it is a list of steps. -/
structure Member where
  value : Json
  steps : Option (List Step)

/-- The one member of a name, which may be missing but not repeated. -/
def only? {α : Type} (name : Text) (members : List (Text × α)) : Option (Option α) :=
  match members.filter (·.1 = name) with
  | [] => some none
  | [(_, m)] => some (some m)
  | _ => none

/-- The values of an object by name, or of an array by position. -/
def named? (names : List Text) : Json → Option (List (Text × Json))
  | .obj members => some members
  | .arr values => if values.length ≤ names.length then some (names.zip values) else none
  | _ => none

/-- A text. -/
def text? : Json → Option Text
  | .str s => some s
  | _ => none

/-- A number; integers become floating-point numbers. -/
def number? : Json → Option Double
  | .int n => some (.number (.ofInt n))
  | .float x => some (.number x)
  | _ => none

/-- A truth value. -/
def bool? : Json → Option Bool
  | .bool b => some b
  | _ => none

/-- The arguments of a snapshot; missing data are empty. -/
def snapshot? (value : Json) : Option Snapshot := do
  let members ← named? ["persistent".toList, "data".toList] value
  let persistent ← (← only? "persistent".toList members) >>= bool?
  match ← only? "data".toList members with
  | none => return ⟨persistent, []⟩
  | some (.obj data) => return ⟨persistent, Json.distinctMembers (Json.distinctValues data)⟩
  | some _ => none

/-- A required text among the members. -/
def requiredText? (name : String) (members : List (Text × Member)) : Option Text := do
  text? (← (← only? name.toList members)).value

/-- A list of steps among the members; a missing one is empty. -/
def stepList? (name : String) (members : List (Text × Member)) : Option (List Step) := do
  match ← only? name.toList members with
  | none => some []
  | some m => m.steps

/-- A step of a kind from its members. -/
def stepOfMembers? (kind : Kind) (members : List (Text × Member)) : Option Step :=
  match kind with
  | .ask => return .ask (← requiredText? "var" members)
  | .enter => return .enter (← requiredText? "name" members)
  | .progress => return .progress (← number? (← (← only? "value".toList members)).value)
  | .gather => return .gather (← requiredText? "list" members)
  | .branch => do
    let cond ← requiredText? "cond" members
    let yes ← stepList? "then" members
    match ← only? "else".toList members with
    | none | some ⟨.null, _⟩ => return .branch cond yes none
    | some m => return .branch cond yes (some (← m.steps))
  | .loop => do
    let item ← requiredText? "item" members
    let iter ← requiredText? "iter" members
    return .loop item iter (← stepList? "body" members)
  | .once => do
    let name ← requiredText? "name" members
    match ← only? "flag".toList members with
    | none | some ⟨.null, _⟩ => return .once name none
    | some m => return .once name (some (← text? m.value))
  | .snapshot => return .snapshot (← snapshot? (← (← only? "args".toList members)).value)

/-- The kind that a tag names; inside another step it may also be given by its number. -/
def kind? (nested : Bool) : Json → Option Kind
  | .str tag => Kind.ofTag? tag
  | .int n => if nested && 0 ≤ n then Kind.all[n.toNat]? else none
  | _ => none

/-- The members of a step written by position. -/
def positional? (kind : Kind) (values : List Member) : Option (List (Text × Member)) :=
  if values.length ≤ kind.fields.length then some (kind.fields.zip values) else none

end Codec

open Codec in
mutual

/-- The step that a JSON value describes.  `nested` tells whether it stands inside another
step. -/
def Step.ofJson? (nested : Bool) : Json → Option Step
  | .obj members => do
    let members := readMembers members
    let tag ← (← only? "type".toList members)
    stepOfMembers? (← kind? nested tag.value) (members.filter (·.1 ≠ "type".toList))
  | .arr (tag :: values) => do
    let kind ← kind? nested tag
    stepOfMembers? kind (← positional? kind (readValues values))
  | _ => none

/-- The members of an object, each with the steps it may hold. -/
def readMembers : List (Text × Json) → List (Text × Member)
  | [] => []
  | (name, value) :: rest => (name, ⟨value, stepsOfJson? value⟩) :: readMembers rest

/-- The values of an array, each with the steps it may hold. -/
def readValues : List Json → List Member
  | [] => []
  | value :: rest => ⟨value, stepsOfJson? value⟩ :: readValues rest

/-- The steps inside a step, as a list. -/
def stepsOfJson? : Json → Option (List Step)
  | .arr items => readSteps? true items
  | _ => none

/-- A step for each value. -/
def readSteps? (nested : Bool) : List Json → Option (List Step)
  | [] => some []
  | value :: rest => do
    let step ← Step.ofJson? nested value
    return step :: (← readSteps? nested rest)

end

/-- The steps that stand in no other step, as a list. -/
def topStepsOfJson? : Json → Option (List Step)
  | .arr items => readSteps? false items
  | _ => none

/-- The names of the fields of a plan, in the order of their positions. -/
def Plan.fields : List Text := ["id".toList, "mandatory".toList, "nodes".toList]

open Codec in
/-- The plan that a JSON value describes; missing steps are no steps. -/
def Plan.ofJson? (value : Json) : Option Plan := do
  let members ← named? Plan.fields value
  let id ← (← only? "id".toList members) >>= text?
  let mandatory ← (← only? "mandatory".toList members) >>= bool?
  match ← only? "nodes".toList members with
  | none => return ⟨id, mandatory, []⟩
  | some nodes => return ⟨id, mandatory, ← topStepsOfJson? nodes⟩

/-- The plan that a JSON text describes.  Members that a plan does not have are passed over. -/
def Plan.parse? (t : Text) : Option Plan := Json.parseMembers Plan.fields t >>= Plan.ofJson?

end InterviewPlan
