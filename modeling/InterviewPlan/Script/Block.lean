import InterviewPlan.Script.Statement

/-!
# Reading scripts

A script is read line by line.  The statements of a block stand at one indentation, the target;
the block ends at the first line that holds a statement with less.  Lines inside the block that
are indented deeper and belong to no step are skipped, as are blank lines, comments and the
placeholder.  Reading never fails: a line of no known form asks for a value.

## Main definitions

* `Script.reading`: the block at the beginning of some lines, read in one pass
* `Script.steps`: its steps, said by where each part of the block begins
* `Script.readBlock`: the block at a cursor, with the cursor where it ends
* `Script.decompile`: the steps of a text, whose shallowest statement is the top level
-/

namespace InterviewPlan

namespace Script

/-- The number of leading blanks of a line; tabs do not count. -/
def indentOf (line : Text) : Nat := Text.indentWidth (· == ' ') line

/-- Whether a line without outer blanks is a comment. -/
def isComment (t : Text) : Bool := t.head? = some '#'

/-- Whether a line holds no statement: it is blank or a comment. -/
def isSkippable (line : Text) : Bool :=
  let t := Text.trim line
  t.isEmpty || isComment t

/-- Whether a line continues a block of an indentation: it holds no statement, or one that is
indented at least as far. -/
def isInside (target : Nat) (line : Text) : Bool :=
  isSkippable line || target ≤ indentOf line

/-- The lines after the block of an indentation. -/
def afterBlock (target : Nat) (lines : List Text) : List Text := lines.dropWhile (isInside target)

/-- The lines of an else-branch, if its header is the next line. -/
def elseBody? (target : Nat) : List Text → Option (List Text)
  | line :: rest =>
    if indentOf line = target ∧ Text.trim line = elseLine then some rest else none
  | [] => none

/-- Whether a line continues the body of a guard at an indentation. -/
def isUnderGuard (target : Nat) (line : Text) : Bool :=
  (Text.trim line).isEmpty || target < indentOf line

/-- The name of the step in the body of a guard: the first line that is neither blank nor a comment
nor an assignment to the flag. -/
def guardedName? (flag : Text) (body : List Text) : Option Text :=
  (body.map Text.trim).find? fun t => !t.isEmpty && !isComment t && !Statement.assigns flag t

/-- The step that runs once, when the condition is a guard and its body names a step; and the lines
after the body. -/
def once? (target : Nat) (cond : Text) (rest : List Text) : Option (Step × List Text) := do
  let flag ← Pattern.guardedFlag? cond
  let name ← guardedName? flag (rest.takeWhile (isUnderGuard target))
  return (.once name (some flag), rest.dropWhile (isUnderGuard target))

/-- The lines after a call in which `depth` parentheses are open.  A line that is not blank and is
indented less than the call ends it.  As in a line, the depth has no bound, and 32 bits hold it while
the call has fewer than `2 ^ 31` parentheses. -/
def afterOpenCall (target : Nat) (depth : Int) : List Text → List Text
  | [] => []
  | line :: rest =>
    if depth ≤ 0 || (!(Text.trim line).isEmpty && indentOf line < target) then line :: rest
    else afterOpenCall target (depth + Statement.parenDelta none line) rest

/-- The lines after a call that begins on a line. -/
def afterCall (target : Nat) (line : Text) (rest : List Text) : List Text :=
  afterOpenCall target (Statement.parenDelta none line) rest

/-! ### Each of these leaves lines further down -/

theorem afterBlock_suffix (target : Nat) (lines : List Text) : afterBlock target lines <:+ lines :=
  List.dropWhile_suffix _

theorem elseBody?_suffix {target : Nat} {lines body : List Text}
    (h : elseBody? target lines = some body) : body <:+ lines ∧ body.length < lines.length := by
  unfold elseBody? at h
  split at h
  · next line rest =>
    split at h
    · obtain rfl := Option.some.inj h
      exact ⟨List.suffix_cons line rest, Nat.lt_succ_self _⟩
    · cases h
  · cases h

/-- A guard reads its flag from the condition and its name from a line of its body. -/
theorem once?_eq_some {target : Nat} {cond : Text} {rest after : List Text} {step : Step}
    (h : once? target cond rest = some (step, after)) :
    ∃ flag name, Pattern.guardedFlag? cond = some flag ∧
      guardedName? flag (rest.takeWhile (isUnderGuard target)) = some name ∧
      step = .once name (some flag) ∧ after = rest.dropWhile (isUnderGuard target) := by
  simp only [once?, Option.bind_eq_bind, Option.bind_eq_some_iff] at h
  obtain ⟨flag, hflag, name, hname, h⟩ := h
  obtain ⟨rfl, rfl⟩ := Prod.mk.inj (Option.some.inj h)
  exact ⟨flag, name, hflag, hname, rfl, rfl⟩

theorem once?_suffix {target : Nat} {cond : Text} {rest after : List Text} {step : Step}
    (h : once? target cond rest = some (step, after)) : after <:+ rest := by
  obtain ⟨flag, name, -, -, -, rfl⟩ := once?_eq_some h
  exact List.dropWhile_suffix _

theorem afterOpenCall_suffix (target : Nat) (depth : Int) (lines : List Text) :
    afterOpenCall target depth lines <:+ lines := by
  induction lines generalizing depth with
  | nil => exact List.suffix_rfl
  | cons line rest ih =>
    rw [afterOpenCall]
    split
    · exact List.suffix_rfl
    · exact (ih _).trans (List.suffix_cons line rest)

theorem afterCall_suffix (target : Nat) (line : Text) (rest : List Text) :
    afterCall target line rest <:+ rest :=
  afterOpenCall_suffix target _ rest

/-! ### Blocks -/

/-- The steps of the block at the beginning of the lines.  Where a part of the block ends is found
from the lines alone, so that each part is read from lines that are known beforehand. -/
def steps (target : Nat) (lines : List Text) : List Step :=
  match lines with
  | [] => []
  | line :: rest =>
    if isSkippable line then steps target rest
    else if indentOf line < target then []
    else if target < indentOf line || Text.trim line = placeholder then steps target rest
    else
      match Statement.ofText (Text.trim line) with
      | .step step => step :: steps target rest
      -- a guard is tried first: its body makes one step and is not read as a block
      | .condition cond =>
        match _hGuard : once? target cond rest with
        | some (step, after) => step :: steps target after
        | none =>
          match _hElse : elseBody? target (afterBlock (target + indentStep) rest) with
          | some body =>
            .branch cond (steps (target + indentStep) rest)
                (some (steps (target + indentStep) body))
              :: steps target (afterBlock (target + indentStep) body)
          | none =>
            .branch cond (steps (target + indentStep) rest) none
              :: steps target (afterBlock (target + indentStep) rest)
      | .repetition item iter =>
        .loop item iter (steps (target + indentStep) rest)
          :: steps target (afterBlock (target + indentStep) rest)
      | .storage => .snapshot .plain :: steps target (afterCall target line rest)
termination_by lines.length
decreasing_by
  -- every part begins below the line that is read, so it has fewer lines
  all_goals simp only [List.length_cons]
  · omega
  · omega
  · omega
  · have := (once?_suffix _hGuard).length_le
    omega
  · omega
  · have := (elseBody?_suffix _hElse).2
    have := (afterBlock_suffix (target + indentStep) rest).length_le
    omega
  · have := (elseBody?_suffix _hElse).2
    have := (afterBlock_suffix (target + indentStep) rest).length_le
    have := (afterBlock_suffix (target + indentStep) body).length_le
    omega
  · omega
  · have := (afterBlock_suffix (target + indentStep) rest).length_le
    omega
  · omega
  · have := (afterBlock_suffix (target + indentStep) rest).length_le
    omega
  · have := (afterCall_suffix target line rest).length_le
    omega

/-! ### Reading in one pass -/

/-- What is read from the beginning of some lines: the steps, and the lines that are left. -/
structure Reading (lines : List Text) where
  steps : List Step
  rest : List Text
  rest_suffix : rest <:+ lines

namespace Reading

/-- Nothing is read, and all lines are left. -/
def stop (lines : List Text) : Reading lines := ⟨[], lines, List.suffix_rfl⟩

/-- Some steps, and after them what is read from lines further down. -/
def continued {rest lines : List Text} (ns : List Step) (h : rest <:+ lines) (r : Reading rest) :
    Reading lines :=
  ⟨ns ++ r.steps, r.rest, r.rest_suffix.trans h⟩

end Reading

/-- The block at the beginning of the lines, read in one pass: each step begins where the one before
it has ended, and so does the rest of the block after the blocks inside of it. -/
def reading (target : Nat) (lines : List Text) : Reading lines :=
  match lines with
  | [] => .stop []
  | line :: rest =>
    have hrest : rest <:+ line :: rest := List.suffix_cons line rest
    if isSkippable line then .continued [] hrest (reading target rest)
    else if indentOf line < target then .stop (line :: rest)
    else if target < indentOf line || Text.trim line = placeholder then
      .continued [] hrest (reading target rest)
    else
      match Statement.ofText (Text.trim line) with
      | .step step => .continued [step] hrest (reading target rest)
      | .condition cond =>
        match hGuard : once? target cond rest with
        | some (step, after) =>
          .continued [step] ((once?_suffix hGuard).trans hrest) (reading target after)
        | none =>
          let yes := reading (target + indentStep) rest
          match hElse : elseBody? target yes.rest with
          | some body =>
            have hbody : body <:+ line :: rest :=
              ((elseBody?_suffix hElse).1.trans yes.rest_suffix).trans hrest
            let no := reading (target + indentStep) body
            .continued [.branch cond yes.steps (some no.steps)] (no.rest_suffix.trans hbody)
              (reading target no.rest)
          | none =>
            .continued [.branch cond yes.steps none] (yes.rest_suffix.trans hrest)
              (reading target yes.rest)
      | .repetition item iter =>
        let body := reading (target + indentStep) rest
        .continued [.loop item iter body.steps] (body.rest_suffix.trans hrest)
          (reading target body.rest)
      | .storage =>
        .continued [.snapshot .plain] ((afterCall_suffix target line rest).trans hrest)
          (reading target (afterCall target line rest))
termination_by lines.length
decreasing_by
  -- a part begins where the one before it has ended: the suffix that its reading carries says that
  -- this is further down
  all_goals simp only [List.length_cons]
  · omega
  · omega
  · omega
  · have := (once?_suffix hGuard).length_le
    omega
  · omega
  · have := (elseBody?_suffix hElse).2
    have := yes.rest_suffix.length_le
    omega
  · have := (elseBody?_suffix hElse).2
    have := yes.rest_suffix.length_le
    refine Nat.lt_succ_of_le (Nat.le_trans (Reading.rest_suffix _).length_le ?_)
    omega
  · exact Nat.lt_succ_of_le (Reading.rest_suffix _).length_le
  · omega
  · exact Nat.lt_succ_of_le (Reading.rest_suffix _).length_le
  · have := (afterCall_suffix target line rest).length_le
    omega

/-- The steps of the block at a cursor, and the cursor where the block ends.  A cursor past the last
line stays where it is. -/
def readBlock (lines : List Text) (cursor target : Nat) : List Step × Nat :=
  let block := lines.drop cursor
  let r := reading target block
  (r.steps, cursor + (block.length - r.rest.length))

/-- The least indentation of a statement. -/
def baseIndent (lines : List Text) : Nat :=
  (((lines.filter (!isSkippable ·)).map indentOf).min?).getD 0

/-- The steps of a script. -/
def decompile (script : Text) : List Step :=
  let lines := Text.lines script
  (readBlock lines 0 (baseIndent lines)).1

end Script

end InterviewPlan
