import InterviewPlan.Plan.Step
import InterviewPlan.Script.Literal
import InterviewPlan.Text.Lines

/-!
# Writing plans as scripts

A step becomes one or more lines, and the steps below it are indented by two more blanks.  A plan
becomes a block: a banner, its identifier, whether it is mandatory, and the script under a code
header.

## Main definitions

* `Script.emit`: the lines of steps at an indentation
* `Script.compile`: the block of a plan
-/

namespace InterviewPlan

namespace Script

/-- The decorated first line of a block. -/
def banner : Text := "#################### Interview order #####################".toList

/-- The statement that stands for no steps, so that a branch is never without lines. -/
def placeholder : Text := "pass".toList

/-- The line that opens the script of a block. -/
def codeHeader : Text := "code: |".toList

/-- The line that opens an else-branch. -/
def elseLine : Text := "else:".toList

/-- The beginning of a call that stores the answers. -/
def snapshotOpening : Text := "store_variables_snapshot(".toList

/-- By how many blanks the steps below a step are indented further. -/
def indentStep : Nat := 2

/-- Blanks at the beginning of a line. -/
def pad (indent : Nat) : Text := List.replicate indent ' '

/-- The lines of a call that stores the answers, with an entry of the data on each line. -/
def emitSnapshot (indent : Nat) (args : Snapshot) : List Text :=
  let inner := pad (indent + indentStep)
  let entry := fun ((key, value) : Text × Json) =>
    pad (indent + 2 * indentStep) ++ quote key ++ ": ".toList ++ literal value ++ [',']
  let data :=
    if args.data.isEmpty then [inner ++ "data=\x7b\x7d,".toList]
    else [inner ++ "data=\x7b".toList] ++ args.data.map entry ++ [inner ++ "\x7d,".toList]
  [pad indent ++ snapshotOpening,
    inner ++ "persistent=".toList ++ truth args.persistent ++ [',']] ++ data ++ [pad indent ++ [')']]

/-- The lines of a step that runs once: a guard on its flag, the step, and the flag set. -/
def emitOnce (indent : Nat) (name flag : Text) : List Text :=
  let inner := pad (indent + indentStep)
  [pad indent ++ "if not defined(".toList ++ quote flag ++ ") or not ".toList ++ flag ++ [':'],
    inner ++ name,
    inner ++ flag ++ " = ".toList ++ truth true]

/-- The lines of a branch: the placeholder where there are none. -/
def orPlaceholder (indent : Nat) (lines : List Text) : List Text :=
  if lines.isEmpty then [pad indent ++ placeholder] else lines

/-- The lines of an else-branch under its header; a branch without lines has no header. -/
def underElse (indent : Nat) (lines : List Text) : List Text :=
  if lines.isEmpty then [] else (pad indent ++ elseLine) :: lines

mutual

/-- The lines of a step. -/
def emitStep (indent : Nat) : Step → List Text
  | .ask var => [pad indent ++ var]
  | .enter name => [pad indent ++ "nav.set_section(".toList ++ quote name ++ [')']]
  | .progress value =>
    [pad indent ++ "set_progress(".toList ++ float value.roundToInteger ++ [')']]
  | .gather list => [pad indent ++ list ++ ".gather()".toList]
  | .branch cond yes no =>
    (pad indent ++ "if ".toList ++ cond ++ [':']) ::
      orPlaceholder (indent + indentStep) (emit (indent + indentStep) yes)
      ++ match no with
        | none => []
        | some no => underElse indent (emit (indent + indentStep) no)
  | .loop item iter body =>
    (pad indent ++ "for ".toList ++ item ++ " in ".toList ++ iter ++ [':']) ::
      orPlaceholder (indent + indentStep) (emit (indent + indentStep) body)
  | .once name flag => emitOnce indent name (Step.effectiveFlag name flag)
  | .snapshot args => emitSnapshot indent args

/-- The lines of steps, one step after the other. -/
def emit (indent : Nat) : List Step → List Text
  | [] => []
  | step :: rest => emitStep indent step ++ emit indent rest

end

/-- The lines of a block. -/
def blockLines (plan : Plan) : List Text :=
  [banner, "id: ".toList ++ plan.id, "mandatory: ".toList ++ truth plan.mandatory, codeHeader]
    ++ orPlaceholder indentStep (emit indentStep plan.steps)

/-- The block of a plan. -/
def compile (plan : Plan) : Text := Text.unlines (blockLines plan)

end Script

end InterviewPlan
