import InterviewPlan.Json.Value
import InterviewPlan.Plan.Flag

/-!
# Interview plans

A plan is the order in which an interview resolves its values: a block identifier, whether the
block is mandatory, and the steps.  Steps that branch or repeat own the steps below them.

## Main definitions

* `Step`: one step of an interview
* `Plan`: an identified list of steps
* `Step.kind`, `Kind.tag`: the kinds of steps and their tags
* `Step.guardFlag?`: the flag that guards a step
-/

namespace InterviewPlan

/-- The arguments of a step that stores the current answers. -/
structure Snapshot where
  persistent : Bool
  data : List (Text × Json)

/-- A persistent snapshot without data, which stands for a call whose arguments are not read. -/
def Snapshot.plain : Snapshot := ⟨true, []⟩

/-- A step of an interview. -/
inductive Step where
  /-- A reference to a value that is resolved next. -/
  | ask (var : Text)
  /-- The entry into a navigation section. -/
  | enter (name : Text)
  /-- The percentage of completion. -/
  | progress (value : Double)
  /-- The collection of a list of items. -/
  | gather (list : Text)
  /-- A condition; the steps of its else-branch may be absent. -/
  | branch (cond : Text) (yes : List Step) (no : Option (List Step))
  /-- A loop over `iter` that binds each element to `item`. -/
  | loop (item iter : Text) (body : List Step)
  /-- A step that runs at most once, guarded by a flag. -/
  | once (name : Text) (flag : Option Text)
  /-- The storage of the current answers. -/
  | snapshot (args : Snapshot)

/-- A plan: the steps of a block in the order of execution. -/
structure Plan where
  id : Text
  mandatory : Bool
  steps : List Step

/-- The kinds of steps. -/
inductive Kind where
  | ask | enter | progress | gather | branch | loop | once | snapshot
deriving DecidableEq

namespace Kind

/-- All kinds, in the order of their numbers. -/
def all : List Kind := [ask, enter, progress, gather, branch, loop, once, snapshot]

/-- The tag that names a kind. -/
def tag : Kind → Text
  | ask => "ask".toList
  | enter => "section".toList
  | progress => "progress".toList
  | gather => "gather".toList
  | branch => "if".toList
  | loop => "for".toList
  | once => "run_once".toList
  | snapshot => "store_snapshot".toList

/-- The kind that a tag names. -/
def ofTag? (t : Text) : Option Kind := all.find? (·.tag = t)

/-- The names of the fields of a step, in the order of their positions. -/
def fields : Kind → List Text
  | ask => ["var".toList]
  | enter => ["name".toList]
  | progress => ["value".toList]
  | gather => ["list".toList]
  | branch => ["cond".toList, "then".toList, "else".toList]
  | loop => ["item".toList, "iter".toList, "body".toList]
  | once => ["name".toList, "flag".toList]
  | snapshot => ["args".toList]

end Kind

namespace Step

/-- The kind of a step. -/
def kind : Step → Kind
  | ask _ => .ask
  | enter _ => .enter
  | progress _ => .progress
  | gather _ => .gather
  | branch .. => .branch
  | loop .. => .loop
  | once .. => .once
  | snapshot _ => .snapshot

/-- The flag that guards the step `name`: the given one unless it is blank, else the derived
one. -/
def effectiveFlag (name : Text) (flag : Option Text) : Text :=
  match flag with
  | some f => if Text.isBlankText f then Flag.derived name else f
  | none => Flag.derived name

/-- The flag of a step that runs once; no other step has one. -/
def guardFlag? : Step → Option Text
  | once name flag => some (effectiveFlag name flag)
  | _ => none

end Step

end InterviewPlan
