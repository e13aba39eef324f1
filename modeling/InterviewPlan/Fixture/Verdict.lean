import InterviewPlan.Fixture.Catalogue
import InterviewPlan.Fixture.Frontmatter
import InterviewPlan.Script.Emit
import InterviewPlan.Script.Extract

/-!
# Checking fixtures

A fixture passes if a plan can be taken out of its block exactly when one is expected, and if that
plan meets the expectations about its identifier, its steps and its text.  The first expectation
that it does not meet is the failure.

## Main definitions

* `Fixture.Failure`: why a fixture does not pass
* `Fixture.failure?`: the failure of a fixture
* `Verdict.ofFile`: the verdict on a file
-/

namespace InterviewPlan

namespace Fixture

/-- Why a fixture does not pass. -/
inductive Failure where
  | unreadable (e : FileError)
  | malformed (e : Malformed)
  /-- A plan was found where none is expected. -/
  | unexpected (id : Text) (steps : Nat)
  | missing
  | id (expected actual : Text)
  | kinds (expected actual : List Text)
  | output (expected actual : Text)
deriving DecidableEq

/-- The lines of a text, four blanks deeper. -/
def indented (t : Text) : Text :=
  Text.unlines ((Text.lines t).map ("    ".toList ++ ·))

/-- Names between square brackets. -/
def listed (names : List Text) : Text := '[' :: Text.joinWith ", ".toList names ++ [']']

/-- The wording of a failure, which may take several lines. -/
def Failure.message : Failure → Text
  | unreadable e => "cannot read file: ".toList ++ e.message
  | malformed e => "frontmatter error: ".toList ++ e.message
  | unexpected planId steps =>
    "expected no order block, but extracted '".toList ++ planId ++ "' with ".toList
      ++ Text.ofNat steps ++ " node(s)".toList
  | missing => "expected an order block, but none was extracted".toList
  | id expected actual =>
    "id mismatch\n  expected: ".toList ++ expected ++ "\n  actual:   ".toList ++ actual
  | kinds expected actual =>
    "node kinds mismatch\n  expected: ".toList ++ listed expected
      ++ "\n  actual:   ".toList ++ listed actual
  | output expected actual =>
    "output mismatch\n  expected:\n".toList ++ indented expected
      ++ "\n  actual:\n".toList ++ indented actual

/-- The first expectation that a plan does not meet. -/
def mismatch? (e : Expectations) (plan : Plan) : Option Failure :=
  ((idMismatch? e.planId).or (kindsMismatch? e.kinds)).or (outputMismatch? e.output)
where
  idMismatch? : Option Text → Option Failure
    | some id => if plan.id = id then none else some (.id id plan.id)
    | none => none
  kindsMismatch? : Option (List Text) → Option Failure
    | some kinds =>
      let actual := plan.steps.map (·.kind.tag)
      if actual = kinds then none else some (.kinds kinds actual)
    | none => none
  outputMismatch? : Option Text → Option Failure
    | some output =>
      let expected := Text.trim output
      let actual := Text.trim (Script.compile plan)
      if actual = expected then none else some (.output expected actual)
    | none => none

/-- Why the fixture does not pass, if it does not. -/
def failure? (f : Fixture) : Option Failure :=
  let e := f.expectations
  match e.isOrder, Script.extractOrder f.block e.id e.label with
  | false, none => none
  | false, some plan => some (.unexpected plan.id plan.steps.length)
  | true, none => some .missing
  | true, some plan => mismatch? e plan

end Fixture

/-- The verdict on a file: its failure if it has one, and the description of its fixture if that
can be read. -/
structure Verdict where
  description : Option Text
  failure : Option Fixture.Failure

namespace Verdict

/-- The verdict on the text of a file. -/
def ofText (read : Toml.Source) (content : Text) : Verdict :=
  match Fixture.parse read content with
  | .ok fixture => ⟨fixture.expectations.description, fixture.failure?⟩
  | .error e => ⟨none, some (.malformed e)⟩

/-- The verdict on the bytes of a file. -/
def ofFile (read : Toml.Source) (content : ByteArray) : Verdict :=
  match FileTree.textOf content with
  | .ok t => ofText read t
  | .error e => ⟨none, some (.unreadable e)⟩

end Verdict

end InterviewPlan
