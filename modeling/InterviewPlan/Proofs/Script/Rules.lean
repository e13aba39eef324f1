import InterviewPlan.Proofs.Script.RoundTrip

/-!
# Rules of reading

The lines of a block are read from the first one on, and there are ten ways to take that line.  As
rules they relate an indentation and lines to the steps that are read: a rule says what the line has
to be like, which lines the blocks below it and the rest of the block are read from, and which steps
come out.  What holds of all that is read is shown by induction over the rules.

## Main definitions

* `Script.Reads`: the rules

## Main results

* `Script.reads_steps`: lines are read by the rules as their steps
* `Script.Reads.steps_eq`: and as no others
-/

namespace InterviewPlan

open Text Statement

namespace Script

/-- Lines, at the indentation of a block, and the steps that they are read as. -/
inductive Reads : Nat → List Text → List Step → Prop
  /-- No line is left. -/
  | nil (n : Nat) : Reads n [] []
  /-- A blank line or a comment. -/
  | skip {n : Nat} {line : Text} {rest : List Text} {ns : List Step}
      (hskip : isSkippable line = true) (hrest : Reads n rest ns) : Reads n (line :: rest) ns
  /-- The line that ends the block. -/
  | stop {n : Nat} {line : Text} {rest : List Text} (hskip : isSkippable line = false)
      (hlt : indentOf line < n) : Reads n (line :: rest) []
  /-- A line that is indented deeper than the block, or the placeholder. -/
  | pass {n : Nat} {line : Text} {rest : List Text} {ns : List Step}
      (hskip : isSkippable line = false) (hle : n ≤ indentOf line)
      (hpass : n < indentOf line ∨ trim line = placeholder) (hrest : Reads n rest ns) :
      Reads n (line :: rest) ns
  /-- A step of a single line. -/
  | step {n : Nat} {line : Text} {rest : List Text} {s : Step} {ns : List Step}
      (hline : HoldsStatement n line) (h : ofText (trim line) = .step s)
      (hrest : Reads n rest ns) : Reads n (line :: rest) (s :: ns)
  /-- A step that runs once: a guard and its body. -/
  | guard {n : Nat} {line cond : Text} {rest after : List Text} {s : Step} {ns : List Step}
      (hline : HoldsStatement n line) (h : ofText (trim line) = .condition cond)
      (honce : once? n cond rest = some (s, after)) (hafter : Reads n after ns) :
      Reads n (line :: rest) (s :: ns)
  /-- A branch without an else-branch. -/
  | branch {n : Nat} {line cond : Text} {rest : List Text} {yes ns : List Step}
      (hline : HoldsStatement n line) (h : ofText (trim line) = .condition cond)
      (honce : once? n cond rest = none)
      (helse : elseBody? n (afterBlock (n + indentStep) rest) = none)
      (hyes : Reads (n + indentStep) rest yes)
      (hrest : Reads n (afterBlock (n + indentStep) rest) ns) :
      Reads n (line :: rest) (.branch cond yes none :: ns)
  /-- A branch with one. -/
  | branchElse {n : Nat} {line cond : Text} {rest body : List Text} {yes no ns : List Step}
      (hline : HoldsStatement n line) (h : ofText (trim line) = .condition cond)
      (honce : once? n cond rest = none)
      (helse : elseBody? n (afterBlock (n + indentStep) rest) = some body)
      (hyes : Reads (n + indentStep) rest yes) (hno : Reads (n + indentStep) body no)
      (hrest : Reads n (afterBlock (n + indentStep) body) ns) :
      Reads n (line :: rest) (.branch cond yes (some no) :: ns)
  /-- A loop. -/
  | loop {n : Nat} {line item iter : Text} {rest : List Text} {block ns : List Step}
      (hline : HoldsStatement n line) (h : ofText (trim line) = .repetition item iter)
      (hbody : Reads (n + indentStep) rest block)
      (hrest : Reads n (afterBlock (n + indentStep) rest) ns) :
      Reads n (line :: rest) (.loop item iter block :: ns)
  /-- A snapshot: a call, perhaps over several lines. -/
  | storage {n : Nat} {line : Text} {rest : List Text} {ns : List Step}
      (hline : HoldsStatement n line) (h : ofText (trim line) = .storage)
      (hrest : Reads n (afterCall n line rest) ns) :
      Reads n (line :: rest) (.snapshot .plain :: ns)

variable {n : Nat} {lines : List Text} {ns : List Step}

/-- **Lines are read by the rules as their steps.** -/
theorem reads_steps (n : Nat) (lines : List Text) : Reads n lines (steps n lines) := by
  induction n, lines using steps.induct with
  | case1 n =>
    rw [steps]
    exact .nil n
  | case2 n line rest hskip ih =>
    rw [steps, if_pos hskip]
    exact .skip hskip ih
  | case3 n line rest hskip hlt =>
    rw [steps, if_neg hskip, if_pos hlt]
    exact .stop (by simpa using hskip) hlt
  | case4 n line rest hskip hlt hpass ih =>
    rw [steps, if_neg hskip, if_neg hlt, if_pos hpass]
    exact .pass (by simpa using hskip) (Nat.not_lt.mp hlt) (by simpa using hpass) ih
  | case5 n line rest hskip hlt hpass s hs ih =>
    have hline := holdsStatement_of hskip hlt hpass
    rw [steps_of_step hline hs]
    exact .step hline hs ih
  | case6 n line rest hskip hlt hpass cond hcond s after honce ih =>
    have hline := holdsStatement_of hskip hlt hpass
    rw [steps_of_guard hline hcond honce]
    exact .guard hline hcond honce ih
  | case7 n line rest hskip hlt hpass cond hcond honce body hbody ihyes ihno ih =>
    have hline := holdsStatement_of hskip hlt hpass
    rw [steps_of_condition hline hcond honce,
      show elseBody? n (afterBlock (n + 2) rest) = some body from hbody]
    exact .branchElse hline hcond honce hbody ihyes ihno ih
  | case8 n line rest hskip hlt hpass cond hcond honce hbody ihyes ih =>
    have hline := holdsStatement_of hskip hlt hpass
    rw [steps_of_condition hline hcond honce,
      show elseBody? n (afterBlock (n + 2) rest) = none from hbody]
    exact .branch hline hcond honce hbody ihyes ih
  | case9 n line rest hskip hlt hpass item iter hloop ihbody ih =>
    have hline := holdsStatement_of hskip hlt hpass
    rw [steps_of_repetition hline hloop]
    exact .loop hline hloop ihbody ih
  | case10 n line rest hskip hlt hpass hstorage ih =>
    have hline := holdsStatement_of hskip hlt hpass
    rw [steps_of_storage hline hstorage]
    exact .storage hline hstorage ih

/-- **Lines are read as no other steps.** -/
theorem Reads.steps_eq (h : Reads n lines ns) : steps n lines = ns := by
  induction h with
  | nil n => rw [steps]
  | skip hskip _ ih => rw [steps, if_pos hskip, ih]
  | stop hskip hlt => rw [steps, if_neg (by simp [hskip]), if_pos hlt]
  | pass hskip hle hpass _ ih =>
    rw [steps, if_neg (by simp [hskip]), if_neg (Nat.not_lt.mpr hle), if_pos (by simpa using hpass),
      ih]
  | step hline h _ ih => rw [steps_of_step hline h, ih]
  | guard hline h honce _ ih => rw [steps_of_guard hline h honce, ih]
  | @branch n line cond rest yes ns hline h honce helse _ _ ihyes ih =>
    have hyes : steps (n + 2) rest = yes := ihyes
    have hmore : steps n (afterBlock (n + 2) rest) = ns := ih
    rw [steps_of_condition hline h honce,
      show elseBody? n (afterBlock (n + 2) rest) = none from helse]
    simp only [hyes, hmore]
  | @branchElse n line cond rest body yes no ns hline h honce helse _ _ _ ihyes ihno ih =>
    have hyes : steps (n + 2) rest = yes := ihyes
    have hno : steps (n + 2) body = no := ihno
    have hmore : steps n (afterBlock (n + 2) body) = ns := ih
    rw [steps_of_condition hline h honce,
      show elseBody? n (afterBlock (n + 2) rest) = some body from helse]
    simp only [hyes, hno, hmore]
  | @loop n line item iter rest block ns hline h _ _ ihbody ih =>
    have hbody : steps (n + 2) rest = block := ihbody
    have hmore : steps n (afterBlock (n + 2) rest) = ns := ih
    rw [steps_of_repetition hline h, hbody, hmore]
  | storage hline h _ ih => rw [steps_of_storage hline h, ih]

end Script

end InterviewPlan
