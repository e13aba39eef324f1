import InterviewPlan.Script.Emit
import InterviewPlan.Script.Extract

/-!
# Editing sessions

In a session a text and a plan are worked on side by side.  Plans are taken out of the text and put
back into it; until there is a plan, there is nothing to put back.

## Main definitions

* `Session`: the text, and the plan if there is one
* `Session.Edit`: what can be done to them
* `Session.edit?`: the session after an edit
-/

namespace InterviewPlan

/-- A text and the plan that goes with it. -/
structure Session where
  text : Text
  plan : Option Plan

namespace Session

/-- A session begins with nothing. -/
def empty : Session := ⟨[], none⟩

/-- A change of the text or of the plan. -/
inductive Edit where
  | setText (t : Text)
  | append (t : Text)
  | setPlan (plan : Plan)
  | addStep (step : Step)
  /-- Take the plan out of the text; without one there, there is none afterwards. -/
  | extract
  /-- Replace the text by the written plan. -/
  | compile
  /-- Put the written plan behind the text, as a block of its own. -/
  | appendCompiled

/-- What stands between two blocks of a document. -/
def blockBreak : Text := "\n---\n".toList

/-- The plan to which the first step of a session is added. -/
def newPlan : Plan := ⟨"new".toList, true, []⟩

/-- The session after an edit.  Only an edit that writes the plan can fail, when there is none. -/
def edit? (s : Session) : Edit → Option Session
  | .setText t => some { s with text := t }
  | .append t => some { s with text := s.text ++ t }
  | .setPlan plan => some { s with plan := some plan }
  | .addStep step =>
    let plan := s.plan.getD newPlan
    some { s with plan := some { plan with steps := plan.steps ++ [step] } }
  | .extract => some { s with plan := Script.extract s.text }
  | .compile => s.plan.map fun plan => { s with text := Script.compile plan }
  | .appendCompiled => s.plan.map fun plan =>
    { s with text := s.text ++ blockBreak ++ Script.compile plan }

end Session

end InterviewPlan
