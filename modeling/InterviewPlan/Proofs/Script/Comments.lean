import InterviewPlan.Proofs.Script.Extent
import InterviewPlan.Proofs.Script.Rules

/-!
# Scripts without their comments

Comments and blank lines say nothing, and a script reads the same without them.  A block, the branch
of a header and the place before an else-branch pass over comments at any indentation.  The body of
a guard and a call do not: a comment that is indented too little ends them like a statement would.
So comments may be left out as long as none of them stands in such a place, in the body of a guard
above the line that names the step, or in a call.

## Main definitions

* `Script.stripped`: a script without its blank lines and comments
* `Script.GuardIsWhole`, `Script.CallIsWhole`: no comment ends the body of a guard or a call
* `Script.Uninterrupted`: lines in which no comment ends a guard or a call

## Main results

* `Script.Reads.filter`: lines read the same without comments
* `Script.decompile_stripped`: so does a script
* `Script.decompile_stripped_ne`: a comment that interrupts a guard or a call changes what is read
-/

namespace InterviewPlan

open Text Statement

namespace Script

variable {n : Nat} {p q : Text → Bool} {ls rest body : List Text} {ns : List Step}
  {line cond flag : Text} {depth : Int}

/-- Whether a line holds a statement. -/
def isStatement (line : Text) : Bool := !isSkippable line

/-- A script without its blank lines and comments. -/
def stripped (script : Text) : Text := ((fullLines script).filter isStatement).flatten

theorem lines_stripped (script : Text) :
    Text.lines (stripped script) = (Text.lines script).filter isStatement := by
  have hsame : (isStatement ∘ dropEnding) = isStatement := by
    funext l
    simp only [Function.comp_apply, isStatement, isSkippable, trim_dropEnding]
  rw [Text.lines, stripped, fullLines_flatten_filter, Text.lines, List.filter_map, hsame]

theorem baseIndent_filter (ls : List Text) :
    baseIndent (ls.filter isStatement) = baseIndent ls := by
  have hsame : (ls.filter isStatement).filter (!isSkippable ·) = ls.filter (!isSkippable ·) := by
    rw [List.filter_filter]
    exact List.filter_congr fun l _ => by simp [isStatement]
  rw [baseIndent, baseIndent, hsame]

/-! ### Where comments interrupt -/

/-- Whether a line in the body of a guard names no step: it is blank, a comment, or an assignment to
the flag. -/
def namesNothing (flag : Text) (target : Nat) (line : Text) : Bool :=
  isSkippable line || (target < indentOf line && assigns flag (trim line))

/-- The comments above the line that names the step of a guard stand in its body. -/
def GuardIsWhole (flag : Text) (target : Nat) (rest : List Text) : Prop :=
  ∀ named ∈ (rest.dropWhile (namesNothing flag target)).head?, target < indentOf named →
    ∀ c ∈ rest.takeWhile (namesNothing flag target),
      isComment (trim c) = true → target < indentOf c

/-- The lines of a call in which `depth` parentheses are open, its comments at any indentation. -/
def callLines (target : Nat) (depth : Int) : List Text → List Text
  | [] => []
  | line :: rest =>
    if depth ≤ 0 ∨ (isSkippable line = false ∧ indentOf line < target) then []
    else line :: callLines target (depth + parenDelta none line) rest

/-- The comments in a call are indented as far as the call. -/
def CallIsWhole (target : Nat) (depth : Int) (rest : List Text) : Prop :=
  ∀ c ∈ callLines target depth rest, isComment (trim c) = true → target ≤ indentOf c

/-- No comment ends the guard or the call that a line begins. -/
def IsWhole (line : Text) (rest : List Text) : Prop :=
  match ofText (trim line) with
  | .condition cond => ∀ flag ∈ Pattern.guardedFlag? cond, GuardIsWhole flag (indentOf line) rest
  | .storage => CallIsWhole (indentOf line) (parenDelta none line) rest
  | _ => True

/-- Lines in which no comment ends a guard or a call. -/
inductive Uninterrupted : List Text → Prop
  | nil : Uninterrupted []
  | cons {line : Text} {rest : List Text} (head : IsWhole line rest) (tail : Uninterrupted rest) :
    Uninterrupted (line :: rest)

instance (flag : Text) (target : Nat) (rest : List Text) :
    Decidable (GuardIsWhole flag target rest) :=
  inferInstanceAs (Decidable (∀ named ∈ (rest.dropWhile (namesNothing flag target)).head?,
    target < indentOf named → ∀ c ∈ rest.takeWhile (namesNothing flag target),
      isComment (trim c) = true → target < indentOf c))

instance (target : Nat) (depth : Int) (rest : List Text) :
    Decidable (CallIsWhole target depth rest) :=
  inferInstanceAs (Decidable (∀ c ∈ callLines target depth rest,
    isComment (trim c) = true → target ≤ indentOf c))

theorem isWhole_of_condition (h : ofText (trim line) = .condition cond) :
    IsWhole line rest ↔
      ∀ flag ∈ Pattern.guardedFlag? cond, GuardIsWhole flag (indentOf line) rest := by
  rw [IsWhole, h]

theorem isWhole_of_storage (h : ofText (trim line) = .storage) :
    IsWhole line rest ↔ CallIsWhole (indentOf line) (parenDelta none line) rest := by
  rw [IsWhole, h]

instance (line : Text) (rest : List Text) : Decidable (IsWhole line rest) :=
  match h : ofText (trim line) with
  | .condition _ => decidable_of_iff' _ (isWhole_of_condition h)
  | .storage => decidable_of_iff' _ (isWhole_of_storage h)
  | .step _ => .isTrue (by rw [IsWhole, h]; trivial)
  | .repetition _ _ => .isTrue (by rw [IsWhole, h]; trivial)

theorem uninterrupted_cons :
    Uninterrupted (line :: rest) ↔ IsWhole line rest ∧ Uninterrupted rest :=
  ⟨fun | .cons head tail => ⟨head, tail⟩, fun h => .cons h.1 h.2⟩

instance decidableUninterrupted : ∀ lines, Decidable (Uninterrupted lines)
  | [] => .isTrue .nil
  | _ :: rest =>
    letI := decidableUninterrupted rest
    decidable_of_iff' _ uninterrupted_cons

theorem Uninterrupted.of_suffix (h : Uninterrupted ls) (hsuffix : rest <:+ ls) :
    Uninterrupted rest := by
  induction h with
  | nil =>
    rw [List.suffix_nil.mp hsuffix]
    exact .nil
  | cons head tail ih =>
    rcases List.suffix_cons_iff.mp hsuffix with rfl | hsuffix
    · exact .cons head tail
    · exact ih hsuffix

/-! ### The loops without comments -/

theorem filter_cons_of_skip (h : isSkippable line = true) (rest : List Text) :
    (line :: rest).filter isStatement = rest.filter isStatement :=
  List.filter_cons_of_neg (by simp [isStatement, h])

theorem filter_cons_of_statement (h : isSkippable line = false) (rest : List Text) :
    (line :: rest).filter isStatement = line :: rest.filter isStatement :=
  List.filter_cons_of_pos (by simp [isStatement, h])

/-- A loop that passes over what is left out comes to the same line. -/
theorem dropWhile_filter (h : ∀ l, p l = false → q l = true) (ls : List Text) :
    (ls.filter p).dropWhile q = (ls.dropWhile q).filter p := by
  induction ls with
  | nil => rfl
  | cons l ls ih =>
    cases hq : q l with
    | true =>
      rw [List.dropWhile_cons_of_pos hq, List.filter_cons]
      split
      · rw [List.dropWhile_cons_of_pos hq, ih]
      · exact ih
    | false =>
      have hp : p l = true := by
        by_contra hp
        rw [h l (by simpa using hp)] at hq
        cases hq
      rw [List.dropWhile_cons_of_neg (by simp [hq]), List.filter_cons_of_pos hp,
        List.dropWhile_cons_of_neg (by simp [hq])]

/-- **A block** ends at the same line. -/
theorem afterBlock_filter (n : Nat) (ls : List Text) :
    afterBlock n (ls.filter isStatement) = (afterBlock n ls).filter isStatement := by
  refine dropWhile_filter (fun l hl => isInside_of_isSkippable ?_) ls
  simpa [isStatement] using hl

/-- **An else-branch** is found in the same place. -/
theorem elseBody?_filter (n m : Nat) (ls : List Text) :
    elseBody? n ((afterBlock m ls).filter isStatement) =
      (elseBody? n (afterBlock m ls)).map (·.filter isStatement) := by
  cases hafter : afterBlock m ls with
  | nil => rfl
  | cons line rest =>
    have hout : isInside m line = false := by
      have hhead := List.head?_dropWhile_not (isInside m) ls
      rw [show ls.dropWhile (isInside m) = line :: rest from hafter] at hhead
      simpa using hhead
    have hskip : isSkippable line = false := (Bool.or_eq_false_iff.mp hout).1
    rw [filter_cons_of_statement hskip, elseBody?, elseBody?]
    split <;> rfl

theorem guardedName?_of_namesNothing (h : namesNothing flag n line = true) (ls : List Text) :
    guardedName? flag (line :: ls) = guardedName? flag ls := by
  rw [guardedName?, List.map_cons, List.find?_cons_of_neg, guardedName?]
  rw [namesNothing, isSkippable, Bool.or_eq_true, Bool.and_eq_true] at h
  rcases h with hskip | ⟨-, hassigns⟩
  · rw [← Bool.not_or, hskip]
    simp
  · simp [hassigns]

theorem isUnderGuard_of_namesNothing (h : namesNothing flag n line = true)
    (hskip : isSkippable line = false) : isUnderGuard n line = true := by
  rw [namesNothing, hskip, Bool.false_or, Bool.and_eq_true] at h
  simp [isUnderGuard, of_decide_eq_true h.1]

/-- What is whole is whole from each line on that names no step. -/
theorem GuardIsWhole.tail (h : GuardIsWhole flag n (line :: ls))
    (hnothing : namesNothing flag n line = true) : GuardIsWhole flag n ls := by
  rw [GuardIsWhole, List.dropWhile_cons_of_pos hnothing, List.takeWhile_cons_of_pos hnothing] at h
  exact fun named hnamed hlt c hc => h named hnamed hlt c (List.mem_cons_of_mem line hc)

theorem isComment_of_isSkippable (hskip : isSkippable line = true)
    (hvisible : (trim line).isEmpty = false) : isComment (trim line) = true := by
  rw [isSkippable, hvisible, Bool.false_or] at hskip
  exact hskip

/-- A line that names no step, but ends the body of a guard, is a comment. -/
theorem isComment_of_namesNothing (hnothing : namesNothing flag n line = true)
    (hunder : isUnderGuard n line = false) :
    isSkippable line = true ∧ isComment (trim line) = true ∧ indentOf line ≤ n := by
  have hskip : isSkippable line = true := by
    by_contra hskip
    rw [isUnderGuard_of_namesNothing hnothing (by simpa using hskip)] at hunder
    cases hunder
  obtain ⟨hvisible, hle⟩ := Bool.or_eq_false_iff.mp hunder
  exact ⟨hskip, isComment_of_isSkippable hskip hvisible, Nat.not_lt.mp (of_decide_eq_false hle)⟩

/-- Below a comment that ends the body, no line of a whole guard names a step. -/
theorem GuardIsWhole.indentOf_le (h : GuardIsWhole flag n (line :: ls))
    (hnothing : namesNothing flag n line = true) (hcomment : isComment (trim line) = true)
    (hle : indentOf line ≤ n) :
    ∀ named ∈ (ls.dropWhile (namesNothing flag n)).head?, indentOf named ≤ n := by
  intro named hnamed
  by_contra hlt
  rw [GuardIsWhole, List.dropWhile_cons_of_pos hnothing, List.takeWhile_cons_of_pos hnothing] at h
  have hdeep := h named hnamed (Nat.not_le.mp hlt) line List.mem_cons_self hcomment
  exact Nat.not_lt.mpr hle hdeep

/-- Without a line in its body that names a step, a guard finds none there. -/
theorem guardedName?_filter_eq_none (h : ∀ named ∈ (ls.dropWhile (namesNothing flag n)).head?,
      indentOf named ≤ n) :
    guardedName? flag ((ls.filter isStatement).takeWhile (isUnderGuard n)) = none := by
  induction ls with
  | nil => rfl
  | cons line ls ih =>
    cases hskip : isSkippable line with
    | true =>
      have hnothing : namesNothing flag n line = true := by simp [namesNothing, hskip]
      rw [List.dropWhile_cons_of_pos hnothing] at h
      rw [filter_cons_of_skip hskip, ih h]
    | false =>
      rw [filter_cons_of_statement hskip]
      cases hnothing : namesNothing flag n line with
      | true =>
        rw [List.dropWhile_cons_of_pos hnothing] at h
        rw [List.takeWhile_cons_of_pos (isUnderGuard_of_namesNothing hnothing hskip),
          guardedName?_of_namesNothing hnothing, ih h]
      | false =>
        rw [List.dropWhile_cons_of_neg (by simp [hnothing])] at h
        have hunder := isUnderGuard_eq_false hskip (h line rfl)
        rw [List.takeWhile_cons_of_neg (by simp [hunder])]
        rfl

/-- **A guard** finds the same name. -/
theorem guardedName?_filter (h : GuardIsWhole flag n ls) :
    guardedName? flag ((ls.filter isStatement).takeWhile (isUnderGuard n)) =
      guardedName? flag (ls.takeWhile (isUnderGuard n)) := by
  induction ls with
  | nil => rfl
  | cons line ls ih =>
    cases hnothing : namesNothing flag n line with
    | false =>
      have hskip : isSkippable line = false := (Bool.or_eq_false_iff.mp hnothing).1
      rw [filter_cons_of_statement hskip]
      cases hunder : isUnderGuard n line with
      | false =>
        rw [List.takeWhile_cons_of_neg (by simp [hunder]),
          List.takeWhile_cons_of_neg (by simp [hunder])]
      | true =>
        have hassigns : assigns flag (trim line) = false := by
          rw [isUnderGuard, (Bool.or_eq_false_iff.mp hskip).1, Bool.false_or] at hunder
          rwa [namesNothing, hskip, hunder, Bool.false_or, Bool.true_and] at hnothing
        rw [List.takeWhile_cons_of_pos hunder, List.takeWhile_cons_of_pos hunder,
          guardedName?_of_statement hskip hassigns, guardedName?_of_statement hskip hassigns]
    | true =>
      cases hunder : isUnderGuard n line with
      | true =>
        rw [List.takeWhile_cons_of_pos hunder, guardedName?_of_namesNothing hnothing,
          ← ih (h.tail hnothing)]
        cases hskip : isSkippable line with
        | true => rw [filter_cons_of_skip hskip]
        | false =>
          rw [filter_cons_of_statement hskip, List.takeWhile_cons_of_pos hunder,
            guardedName?_of_namesNothing hnothing]
      | false =>
        obtain ⟨hskip, hcomment, hle⟩ := isComment_of_namesNothing hnothing hunder
        rw [filter_cons_of_skip hskip, List.takeWhile_cons_of_neg (by simp [hunder])]
        exact guardedName?_filter_eq_none (h.indentOf_le hnothing hcomment hle)

/-- Nothing is counted in a line that holds no statement. -/
theorem parenDelta_of_isSkippable (h : isSkippable line = true) : parenDelta none line = 0 := by
  obtain ⟨b, e, hline, hb, he⟩ := exists_surround line
  have hdelta : parenDelta none line = parenDelta none (trim line ++ e) := by
    conv_lhs => rw [hline, List.append_assoc, parenDelta_append_of_blank hb]
  rw [hdelta]
  rcases Bool.or_eq_true _ _ ▸ h with hempty | hcomment
  · rw [List.isEmpty_iff.mp hempty, List.nil_append, ← List.append_nil e,
      parenDelta_append_of_blank he]
    rfl
  · obtain ⟨r, hr⟩ := List.head?_eq_some_iff.mp (of_decide_eq_true hcomment)
    rw [hr]
    rfl

/-- A line that is left out does not end a call. -/
theorem afterOpenCall_of_skip (h : CallIsWhole n depth (line :: ls)) (hdepth : ¬ depth ≤ 0)
    (hskip : isSkippable line = true) :
    afterOpenCall n depth (line :: ls) = afterOpenCall n depth ls ∧ CallIsWhole n depth ls := by
  have hlines : callLines n depth (line :: ls) = line :: callLines n depth ls := by
    rw [callLines, if_neg (by simp [hdepth, hskip]), parenDelta_of_isSkippable hskip, Int.add_zero]
  rw [CallIsWhole, hlines] at h
  obtain ⟨hline, hrest⟩ := List.forall_mem_cons.mp h
  have hstop : ¬ (decide (depth ≤ 0) || (!(trim line).isEmpty && decide (indentOf line < n))) =
      true := by
    rw [Bool.or_eq_true, not_or, Bool.and_eq_true, not_and]
    refine ⟨by simpa using hdepth, fun hvisible => ?_⟩
    simpa using hline (isComment_of_isSkippable hskip ((Bool.not_eq_true' _).mp hvisible))
  rw [afterOpenCall, if_neg hstop, parenDelta_of_isSkippable hskip, Int.add_zero]
  exact ⟨rfl, hrest⟩

/-- **A call** ends at the same line. -/
theorem afterOpenCall_filter (h : CallIsWhole n depth ls) :
    afterOpenCall n depth (ls.filter isStatement) =
      (afterOpenCall n depth ls).filter isStatement := by
  induction ls generalizing depth with
  | nil => rfl
  | cons line ls ih =>
    by_cases hdepth : depth ≤ 0
    · rw [afterOpenCall_of_nonpos hdepth, afterOpenCall_of_nonpos hdepth]
    cases hskip : isSkippable line with
    | true =>
      obtain ⟨hafter, hrest⟩ := afterOpenCall_of_skip h hdepth hskip
      rw [filter_cons_of_skip hskip, hafter, ih hrest]
    | false =>
      have hvisible : (trim line).isEmpty = false := (Bool.or_eq_false_iff.mp hskip).1
      rw [filter_cons_of_statement hskip, afterOpenCall, afterOpenCall]
      split
      · rw [filter_cons_of_statement hskip]
      · next hstop =>
        refine ih fun c hc => h c ?_
        rw [callLines, if_neg]
        · exact List.mem_cons_of_mem line hc
        · simpa [hvisible, hskip] using hstop

/-! ### Reading without comments -/

/-- Lines that a guard passes over are no steps of the block. -/
theorem steps_dropWhile_isUnderGuard (n : Nat) (ls : List Text) :
    steps n (ls.dropWhile (isUnderGuard n)) = steps n ls := by
  induction ls with
  | nil => rfl
  | cons line ls ih =>
    cases hunder : isUnderGuard n line with
    | false => rw [List.dropWhile_cons_of_neg (by simp [hunder])]
    | true =>
      rw [List.dropWhile_cons_of_pos hunder, ih, steps_cons_of_isUnderGuard hunder]

/-- A loop may begin with the lines that it has passed over left out. -/
theorem dropWhile_filter_dropWhile (p q : Text → Bool) (ls : List Text) :
    (ls.filter p).dropWhile q = ((ls.dropWhile q).filter p).dropWhile q := by
  have hall : ∀ l ∈ (ls.takeWhile q).filter p, q l = true := fun l hl =>
    List.mem_takeWhile_imp (List.mem_filter.mp hl).1
  conv_lhs => rw [← List.takeWhile_append_dropWhile (p := q) (l := ls), List.filter_append]
  exact List.dropWhile_append_of_pos hall

/-- A guard guards the same step. -/
theorem once?_filter (h : ∀ flag ∈ Pattern.guardedFlag? cond, GuardIsWhole flag n ls) :
    once? n cond (ls.filter isStatement) =
      (once? n cond ls).map fun x =>
        (x.1, (x.2.filter isStatement).dropWhile (isUnderGuard n)) := by
  rw [once?, once?]
  cases hflag : Pattern.guardedFlag? cond with
  | none => rfl
  | some flag =>
    simp only [Option.bind_eq_bind, Option.bind_some, guardedName?_filter (h flag hflag)]
    cases guardedName? flag (ls.takeWhile (isUnderGuard n)) with
    | none => rfl
    | some name => simp [← dropWhile_filter_dropWhile]

/-- **Lines read the same without their comments** and blank lines, if no comment ends a guard or a
call. -/
theorem Reads.filter (h : Reads n ls ns) (hls : Uninterrupted ls) :
    Reads n (ls.filter isStatement) ns := by
  -- the rule for a line that is left out is not needed, and each other rule applies as before
  induction h with
  | nil n => exact .nil n
  | skip hskip _ ih =>
    obtain ⟨-, hrest⟩ := uninterrupted_cons.mp hls
    rw [filter_cons_of_skip hskip]
    exact ih hrest
  | stop hskip hlt =>
    rw [filter_cons_of_statement hskip]
    exact .stop hskip hlt
  | pass hskip hle hpass _ ih =>
    obtain ⟨-, hrest⟩ := uninterrupted_cons.mp hls
    rw [filter_cons_of_statement hskip]
    exact .pass hskip hle hpass (ih hrest)
  | step hline hs _ ih =>
    obtain ⟨-, hrest⟩ := uninterrupted_cons.mp hls
    rw [filter_cons_of_statement hline.isSkippable]
    exact .step hline hs (ih hrest)
  | @guard n line cond rest after s ns hline hcond honce _ ih =>
    obtain ⟨hwhole, hrest⟩ := uninterrupted_cons.mp hls
    rw [isWhole_of_condition hcond, hline.indentOf] at hwhole
    have honce' := once?_filter hwhole
    rw [honce, Option.map_some] at honce'
    have hafter := ih (hrest.of_suffix (once?_suffix honce))
    rw [filter_cons_of_statement hline.isSkippable]
    refine .guard hline hcond honce' ?_
    rw [← hafter.steps_eq, ← steps_dropWhile_isUnderGuard]
    exact reads_steps n _
  | @branch n line cond rest yes ns hline hcond honce helse _ _ ihyes ih =>
    obtain ⟨hwhole, hrest⟩ := uninterrupted_cons.mp hls
    rw [isWhole_of_condition hcond, hline.indentOf] at hwhole
    have honce' := once?_filter hwhole
    rw [honce, Option.map_none] at honce'
    have helse' := elseBody?_filter n (n + indentStep) rest
    rw [helse, Option.map_none, ← afterBlock_filter] at helse'
    have hmore := ih (hrest.of_suffix (afterBlock_suffix _ rest))
    rw [← afterBlock_filter] at hmore
    rw [filter_cons_of_statement hline.isSkippable]
    exact .branch hline hcond honce' helse' (ihyes hrest) hmore
  | @branchElse n line cond rest body yes no ns hline hcond honce helse _ _ _ ihyes ihno ih =>
    obtain ⟨hwhole, hrest⟩ := uninterrupted_cons.mp hls
    rw [isWhole_of_condition hcond, hline.indentOf] at hwhole
    have honce' := once?_filter hwhole
    rw [honce, Option.map_none] at honce'
    have helse' := elseBody?_filter n (n + indentStep) rest
    rw [helse, Option.map_some, ← afterBlock_filter] at helse'
    have hbody := hrest.of_suffix ((elseBody?_suffix helse).1.trans (afterBlock_suffix _ rest))
    have hmore := ih (hbody.of_suffix (afterBlock_suffix _ body))
    rw [← afterBlock_filter] at hmore
    rw [filter_cons_of_statement hline.isSkippable]
    exact .branchElse hline hcond honce' helse' (ihyes hrest) (ihno hbody) hmore
  | @loop n line item iter rest block ns hline hloop _ _ ihbody ih =>
    obtain ⟨-, hrest⟩ := uninterrupted_cons.mp hls
    have hmore := ih (hrest.of_suffix (afterBlock_suffix _ rest))
    rw [← afterBlock_filter] at hmore
    rw [filter_cons_of_statement hline.isSkippable]
    exact .loop hline hloop (ihbody hrest) hmore
  | @storage n line rest ns hline hstorage _ ih =>
    obtain ⟨hwhole, hrest⟩ := uninterrupted_cons.mp hls
    rw [isWhole_of_storage hstorage, hline.indentOf] at hwhole
    have hmore := ih (hrest.of_suffix (afterCall_suffix n line rest))
    rw [afterCall, ← afterOpenCall_filter hwhole] at hmore
    rw [filter_cons_of_statement hline.isSkippable]
    exact .storage hline hstorage hmore

/-- **A script reads the same without its comments** and blank lines, if no comment ends the body of
a guard above the line that names the step, and none ends a call. -/
theorem decompile_stripped {script : Text} (h : Uninterrupted (Text.lines script)) :
    decompile (stripped script) = decompile script := by
  have hread := (reads_steps (baseIndent (Text.lines script)) (Text.lines script)).filter h
  rw [decompile_eq_steps, decompile_eq_steps, lines_stripped, baseIndent_filter]
  exact hread.steps_eq

/-- Lines with comments and blank lines at all indentations and in each construct. -/
def commentedLines : List Text :=
  ["# plan".toList, [], "if over_18:".toList, "    # deep".toList, "  name".toList,
    "# shallow".toList, "else:".toList, "# minors".toList,
    "  if not defined('f') or not f:".toList, "    # first".toList, [], "    f = True".toList,
    "    guardian".toList, "  # done".toList, "    more".toList,
    "  store_variables_snapshot(".toList, "  # )".toList, "  )".toList]

/-- None of the comments ends a guard or a call. -/
theorem decompile_stripped_commentedLines :
    Uninterrupted (Text.lines (unlines commentedLines)) ∧
      decompile (stripped (unlines commentedLines)) = decompile (unlines commentedLines) := by
  have hlines : Text.lines (unlines commentedLines) = commentedLines := by decide +kernel
  have hwhole : Uninterrupted commentedLines := by decide +kernel
  rw [← hlines] at hwhole
  exact ⟨hwhole, decompile_stripped hwhole⟩

/-- **A comment that ends a guard or a call changes what is read.**  The guard has no line below it
that names a step, so that it is a branch; what is left of the call is read as further steps. -/
theorem decompile_stripped_ne :
    decompile (stripped "if not defined('f') or not f:\n# comment\n  name".toList) ≠
        decompile "if not defined('f') or not f:\n# comment\n  name".toList ∧
      decompile (stripped
          "for x in xs:\n  store_variables_snapshot(\n# comment\n    data=data,\n  )".toList) ≠
        decompile
          "for x in xs:\n  store_variables_snapshot(\n# comment\n    data=data,\n  )".toList := by
  constructor
  · intro h
    have hkinds := congrArg (·.map Step.kind) h
    revert hkinds
    decide +kernel
  · intro h
    have hcount := congrArg stepCount h
    revert hcount
    decide +kernel

end Script

end InterviewPlan
