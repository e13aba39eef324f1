import InterviewPlan.Text.Lines
import InterviewPlan.Toml.Value

/-!
# Fixtures

A fixture is a block together with what is expected of it.  The expectations stand in front, as
TOML between two delimiters of three hyphens; the block follows the second one.

## Main definitions

* `Expectations`: what is expected of a block, and how it is presented
* `Fixture`: the expectations and the block
* `Fixture.split`: the two parts of a text
* `Fixture.parseExpectations`, `Fixture.parse`: the fixture that a text describes
-/

namespace InterviewPlan

/-- What is expected of a block.  What is absent is not checked. -/
structure Expectations where
  description : Option Text := none
  /-- The identifier of the block in its document. -/
  id : Text := []
  /-- The label of the block in its document. -/
  label : Option Text := none
  /-- Whether a plan can be taken out of the block. -/
  isOrder : Bool := true
  /-- The identifier of the plan. -/
  planId : Option Text := none
  /-- The tags of the steps of the plan that stand in no other step. -/
  kinds : Option (List Text) := none
  /-- The plan as it is written, outer blanks aside. -/
  output : Option Text := none
deriving DecidableEq

namespace Expectations

/-- A text. -/
def text? : Toml → Option Text
  | .str t => some t
  | _ => none

/-- A list of texts. -/
def texts? : Toml → Option (List Text)
  | .list items => items.mapM text?
  | _ => none

/-- The expectations with one more entry. -/
def withEntry? (e : Expectations) (name : Text) (value : Toml) : Option Expectations :=
  match String.ofList name with
  | "description" => return { e with description := some (← text? value) }
  | "id" => return { e with id := ← text? value }
  | "label" => return { e with label := some (← text? value) }
  | "expect_order" =>
    match value with
    | .bool isOrder => some { e with isOrder }
    | _ => none
  | "expect_id" => return { e with planId := some (← text? value) }
  | "expect_kinds" => return { e with kinds := some (← texts? value) }
  | "expect_output" => return { e with output := some (← text? value) }
  | _ => none

/-- The expectations of the entries of a table, which must hold nothing else. -/
def ofEntries? (entries : Toml.Entries) : Option Expectations :=
  entries.foldlM (fun e (name, value) => e.withEntry? name value) {}

end Expectations

/-- A block and what is expected of it. -/
structure Fixture where
  expectations : Expectations
  block : Text
deriving DecidableEq

namespace Fixture

/-- Why a text is no fixture. -/
inductive Malformed where
  | noOpening
  | noClosing
  /-- The text between the delimiters does not read as expectations. -/
  | expectations (reason : Option Text)
deriving DecidableEq

/-- The wording of the error. -/
def Malformed.message : Malformed → Text
  | noOpening => "missing opening --- frontmatter delimiter".toList
  | noClosing => "missing closing --- frontmatter delimiter".toList
  | expectations reason => Text.withReason "TOML parse error".toList reason

/-- The text after one line ending, if it begins with one. -/
def afterEnding : Text → Text
  | '\n' :: r => r
  | '\r' :: '\n' :: r => r
  | t => t

/-- The text without the carriage returns at its end. -/
def dropReturns (t : Text) : Text := (t.reverse.dropWhile (· == '\r')).reverse

/-- The text of the expectations and the block.  Byte-order marks may stand in front, and the
closing delimiter is the first one at the beginning of a line after that of the opening one. -/
def split (content : Text) : Except Malformed (Text × Text) :=
  match content.dropWhile (· == '\ufeff') with
  | '-' :: '-' :: '-' :: opened =>
    match Text.splitAt? "\n---".toList (afterEnding opened) with
    | some (front, rest) => .ok (dropReturns front, afterEnding rest)
    | none => .error .noClosing
  | _ => .error .noOpening

/-- The expectations that a text describes; `read` reads its entries.  The error repeats the words of
the reader, and there are none for entries that do not fit. -/
def parseExpectations (read : Toml.Source) (front : Text) : Except Malformed Expectations :=
  match read front with
  | .error reason => .error (.expectations reason)
  | .ok entries =>
    match Expectations.ofEntries? entries with
    | some expectations => .ok expectations
    | none => .error (.expectations none)

/-- The fixture that a text describes; `read` reads the entries of its expectations. -/
def parse (read : Toml.Source) (content : Text) : Except Malformed Fixture := do
  let (front, block) ← split content
  return ⟨← parseExpectations read front, block⟩

end Fixture

end InterviewPlan
