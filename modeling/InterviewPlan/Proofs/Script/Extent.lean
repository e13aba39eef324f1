import InterviewPlan.Proofs.Script.RoundTrip

/-!
# How far a block goes

A block is read in one pass: each step leaves the lines after it to the next one.  Along the way
several loops look ahead, for the end of a branch, of the body of a guard and of a call, and they
stop on different conditions.  None of them leaves the block: they pass over blank lines, comments
and lines that are indented at least as far as the block.  So the end of a block depends on the
indentation of the lines alone, whatever statements they hold.  Each step also takes a line of its
own, so that there are no more steps than lines.

## Main definitions

* `Script.Passes`: lines that are reached through lines of a block
* `Step.count`, `Script.stepCount`: the number of steps at all depths
* `Script.IsExtent`: where a block ends that is read from a cursor

## Main results

* `Script.reading_covers`: what is read in one pass is the block
* `Script.readBlock_eq`: the steps of a block and its end, told apart
* `Script.decompile_unlines_emit`: the lines of steps are read from their own indentation
* `Script.readBlock_extent`: where reading a block ends, and how many steps it finds at most
-/

namespace InterviewPlan

open Text

mutual

/-- The number of steps in a step, itself included. -/
def Step.count : Step → Nat
  | .branch _ yes none => 1 + Script.stepCount yes
  | .branch _ yes (some no) => 1 + Script.stepCount yes + Script.stepCount no
  | .loop _ _ body => 1 + Script.stepCount body
  | _ => 1

/-- The number of steps at all depths. -/
def Script.stepCount : List Step → Nat
  | [] => 0
  | s :: rest => s.count + Script.stepCount rest

end

namespace Script

variable {target n : Nat} {line cond item iter : Text} {lines rest after body : List Text}
  {s : Step} {ns : List Step}

/-- A step of a single line counts as one. -/
theorem count_of_ofText {t : Text} (h : Statement.ofText t = .step s) : s.count = 1 := by
  rcases Statement.ofText_eq_step h with ⟨name, -, rfl⟩ | ⟨value, rfl⟩ | ⟨list, -, rfl⟩ | rfl <;>
    simp [Step.count]

/-! ### What stays inside of a block -/

theorem isInside_of_le (h : target ≤ indentOf line) : isInside target line = true := by
  simp [isInside, h]

theorem isInside_of_isSkippable (h : isSkippable line = true) : isInside target line = true := by
  simp [isInside, h]

theorem isInside_of_trim (h : (trim line).isEmpty = true) : isInside target line = true :=
  isInside_of_isSkippable (by simp [isSkippable, h])

/-- Lines that are reached through lines of a block alone. -/
def Passes (target : Nat) (lines rest : List Text) : Prop :=
  ∃ passed, lines = passed ++ rest ∧ ∀ l ∈ passed, isInside target l = true

namespace Passes

theorem refl (target : Nat) (lines : List Text) : Passes target lines lines :=
  ⟨[], rfl, by simp⟩

theorem cons (hline : isInside target line = true) (h : Passes target lines rest) :
    Passes target (line :: lines) rest := by
  obtain ⟨passed, rfl, hpassed⟩ := h
  exact ⟨line :: passed, rfl, List.forall_mem_cons.mpr ⟨hline, hpassed⟩⟩

theorem trans (h : Passes target lines rest) (h' : Passes target rest after) :
    Passes target lines after := by
  obtain ⟨passed, rfl, hpassed⟩ := h
  obtain ⟨passed', rfl, hpassed'⟩ := h'
  exact ⟨passed ++ passed', (List.append_assoc ..).symm,
    List.forall_mem_append.mpr ⟨hpassed, hpassed'⟩⟩

/-- Lines that a block passes over do not change where it ends. -/
theorem afterBlock_eq (h : Passes target lines rest) :
    afterBlock target lines = afterBlock target rest := by
  obtain ⟨passed, rfl, hpassed⟩ := h
  exact List.dropWhile_append_of_pos hpassed

theorem dropWhile {p : Text → Bool} (hp : ∀ l, p l = true → isInside target l = true)
    (lines : List Text) : Passes target lines (lines.dropWhile p) :=
  ⟨lines.takeWhile p, List.takeWhile_append_dropWhile.symm,
    fun l hl => hp l (List.mem_takeWhile_imp hl)⟩

end Passes

/-! ### No loop leaves the block -/

/-- A block that is indented deeper ends inside of the block. -/
theorem passes_afterBlock {inner : Nat} (h : target ≤ inner) (lines : List Text) :
    Passes target lines (afterBlock inner lines) := by
  refine .dropWhile (fun l hl => ?_) lines
  rw [isInside, Bool.or_eq_true, decide_eq_true_iff] at hl ⊢
  exact hl.imp_right h.trans

theorem passes_elseBody? (h : elseBody? target lines = some body) : Passes target lines body := by
  unfold elseBody? at h
  split at h
  · next line rest =>
    split at h
    · next helse =>
      obtain rfl := Option.some.inj h
      exact .cons (isInside_of_le helse.1.ge) (.refl target rest)
    · cases h
  · cases h

theorem passes_once? (h : once? target cond rest = some (s, after)) :
    Passes target rest after := by
  obtain ⟨flag, name, -, -, -, rfl⟩ := once?_eq_some h
  refine .dropWhile (fun l hl => ?_) rest
  rw [isUnderGuard, Bool.or_eq_true, decide_eq_true_iff] at hl
  rcases hl with hblank | hindent
  · exact isInside_of_trim hblank
  · exact isInside_of_le hindent.le

theorem passes_afterOpenCall (target : Nat) (depth : Int) (lines : List Text) :
    Passes target lines (afterOpenCall target depth lines) := by
  induction lines generalizing depth with
  | nil => exact .refl target []
  | cons line rest ih =>
    rw [afterOpenCall]
    split
    · exact .refl target (line :: rest)
    · next hopen =>
      rw [Bool.or_eq_true, not_or, Bool.and_eq_true, not_and] at hopen
      refine .cons ?_ (ih _)
      by_cases hblank : (trim line).isEmpty = true
      · exact isInside_of_trim hblank
      · exact isInside_of_le (by simpa using hopen.2 (by simpa using hblank))

/-! ### Reading in one pass -/

/-- What has been read is the block: its steps, up to where it ends, and no more of them than the
lines that have been passed over. -/
structure Reading.Covers (target : Nat) (r : Reading lines) : Prop where
  steps_eq : r.steps = Script.steps target lines
  rest_eq : r.rest = afterBlock target lines
  count_le : stepCount r.steps + r.rest.length ≤ lines.length

theorem stepCount_append (ms ns : List Step) :
    stepCount (ms ++ ns) = stepCount ms + stepCount ns := by
  induction ms with
  | nil => rw [List.nil_append, stepCount, Nat.zero_add]
  | cons s ms ih => rw [List.cons_append, stepCount, stepCount, ih, Nat.add_assoc]

/-- Some steps of a block come before the others. -/
theorem Reading.Covers.continued {r : Reading rest} (h : r.Covers target) (hrest : rest <:+ lines)
    (hpass : Passes target lines rest) (hsteps : Script.steps target lines =
      ns ++ Script.steps target rest) (hcount : stepCount ns + rest.length ≤ lines.length) :
    (Reading.continued ns hrest r).Covers target where
  steps_eq := by rw [Reading.continued, h.steps_eq, hsteps]
  rest_eq := h.rest_eq.trans hpass.afterBlock_eq.symm
  count_le := by
    have hle := h.count_le
    rw [Reading.continued, stepCount_append]
    dsimp only
    omega

/-- A line of a block comes before the others. -/
theorem Reading.Covers.below {r : Reading rest} (h : r.Covers target)
    (hline : isInside target line = true)
    (hsteps : Script.steps target (line :: rest) = ns ++ Script.steps target rest)
    (hcount : stepCount ns ≤ 1) :
    (Reading.continued ns (List.suffix_cons line rest) r).Covers target := by
  refine h.continued _ (.cons hline (.refl target rest)) hsteps ?_
  rw [List.length_cons]
  omega

section Statement

variable (hline : HoldsStatement target line)
include hline

theorem HoldsStatement.isInside : isInside target line = true :=
  isInside_of_le hline.indentOf.ge

theorem covers_of_step (h : Statement.ofText (trim line) = .step s)
    (hrest : (reading target rest).Covers target) :
    (reading target (line :: rest)).Covers target := by
  rw [reading, if_neg hline.not_isSkippable, if_neg hline.not_indentOf_lt, if_neg hline.not_passed]
  simp only [h]
  refine hrest.below hline.isInside (steps_of_step hline h) ?_
  rw [stepCount, count_of_ofText h, stepCount]

theorem covers_of_guard (h : Statement.ofText (trim line) = .condition cond)
    (honce : once? target cond rest = some (s, after))
    (hafter : (reading target after).Covers target) :
    (reading target (line :: rest)).Covers target := by
  obtain ⟨flag, name, -, -, rfl, -⟩ := once?_eq_some honce
  have hlen := (once?_suffix honce).length_le
  rw [reading, if_neg hline.not_isSkippable, if_neg hline.not_indentOf_lt, if_neg hline.not_passed]
  simp only [h]
  split
  · next s' after' honce' =>
    obtain ⟨rfl, rfl⟩ := Prod.mk.inj (Option.some.inj (honce.symm.trans honce'))
    refine hafter.continued _ (.cons hline.isInside (passes_once? honce))
      (steps_of_guard hline h honce) ?_
    simp only [stepCount, Step.count, List.length_cons]
    omega
  · next honce' => cases honce.symm.trans honce'

/-- The header of a branch without an else-branch: the branch is read, and then the rest. -/
theorem covers_of_condition (h : Statement.ofText (trim line) = .condition cond)
    (honce : once? target cond rest = none)
    (helse : elseBody? target (afterBlock (target + indentStep) rest) = none)
    (hyes : (reading (target + indentStep) rest).Covers (target + indentStep))
    (hrest : (reading target (afterBlock (target + indentStep) rest)).Covers target) :
    (reading target (line :: rest)).Covers target := by
  have hcount := hyes.count_le
  have hsteps := steps_of_condition hline h honce
  have hpass : Passes target (line :: rest) (afterBlock (target + indentStep) rest) :=
    .cons hline.isInside (passes_afterBlock (Nat.le_add_right target indentStep) rest)
  rw [show elseBody? target (afterBlock (target + 2) rest) = none from helse] at hsteps
  rw [← hyes.rest_eq] at helse hrest hpass
  rw [reading, if_neg hline.not_isSkippable, if_neg hline.not_indentOf_lt, if_neg hline.not_passed]
  simp only [h]
  split
  · next s' after' honce' => cases honce.symm.trans honce'
  split
  · next body' hbody' => cases helse.symm.trans hbody'
  · refine hrest.continued _ hpass ?_ ?_
    · rw [hsteps, hyes.steps_eq, hyes.rest_eq]
      rfl
    · simp only [stepCount, Step.count, List.length_cons]
      omega

/-- The header of a branch with an else-branch: both sides are read, and then the rest. -/
theorem covers_of_condition_else (h : Statement.ofText (trim line) = .condition cond)
    (honce : once? target cond rest = none)
    (helse : elseBody? target (afterBlock (target + indentStep) rest) = some body)
    (hyes : (reading (target + indentStep) rest).Covers (target + indentStep))
    (hno : (reading (target + indentStep) body).Covers (target + indentStep))
    (hrest : (reading target (afterBlock (target + indentStep) body)).Covers target) :
    (reading target (line :: rest)).Covers target := by
  have hcountYes := hyes.count_le
  have hcountNo := hno.count_le
  have hlen := (elseBody?_suffix helse).2
  have hsteps := steps_of_condition hline h honce
  have hpass : Passes target (line :: rest) (afterBlock (target + indentStep) body) :=
    .cons hline.isInside <|
      (passes_afterBlock (Nat.le_add_right target indentStep) rest).trans <|
      (passes_elseBody? helse).trans <|
      passes_afterBlock (Nat.le_add_right target indentStep) body
  rw [show elseBody? target (afterBlock (target + 2) rest) = some body from helse] at hsteps
  rw [← hyes.rest_eq] at helse hlen
  rw [← hno.rest_eq] at hrest hpass
  rw [reading, if_neg hline.not_isSkippable, if_neg hline.not_indentOf_lt, if_neg hline.not_passed]
  simp only [h]
  split
  · next s' after' honce' => cases honce.symm.trans honce'
  split
  · next body' hbody' =>
    obtain rfl := Option.some.inj (helse.symm.trans hbody')
    refine hrest.continued _ hpass ?_ ?_
    · rw [hsteps, hyes.steps_eq, hno.steps_eq, hno.rest_eq]
      rfl
    · simp only [stepCount, Step.count, List.length_cons]
      omega
  · next hbody' => cases helse.symm.trans hbody'

theorem covers_of_repetition (h : Statement.ofText (trim line) = .repetition item iter)
    (hbody : (reading (target + indentStep) rest).Covers (target + indentStep))
    (hrest : (reading target (afterBlock (target + indentStep) rest)).Covers target) :
    (reading target (line :: rest)).Covers target := by
  have hcount := hbody.count_le
  have hpass : Passes target (line :: rest) (afterBlock (target + indentStep) rest) :=
    .cons hline.isInside (passes_afterBlock (Nat.le_add_right target indentStep) rest)
  rw [← hbody.rest_eq] at hrest hpass
  rw [reading, if_neg hline.not_isSkippable, if_neg hline.not_indentOf_lt, if_neg hline.not_passed]
  simp only [h]
  refine hrest.continued _ hpass ?_ ?_
  · rw [steps_of_repetition hline h, hbody.steps_eq, hbody.rest_eq]
    rfl
  · simp only [stepCount, Step.count, List.length_cons]
    omega

theorem covers_of_storage (h : Statement.ofText (trim line) = .storage)
    (hrest : (reading target (afterCall target line rest)).Covers target) :
    (reading target (line :: rest)).Covers target := by
  have hlen := (afterCall_suffix target line rest).length_le
  rw [reading, if_neg hline.not_isSkippable, if_neg hline.not_indentOf_lt, if_neg hline.not_passed]
  simp only [h]
  refine hrest.continued _ (.cons hline.isInside (passes_afterOpenCall ..))
    (steps_of_storage hline h) ?_
  simp only [stepCount, Step.count, List.length_cons]
  omega

end Statement

/-- **What is read in one pass is the block**, whatever its lines say. -/
theorem reading_covers (target : Nat) (lines : List Text) :
    (reading target lines).Covers target := by
  -- the cases are the ways to read a line; in each of them the lines that are left are reached
  -- through lines of the block
  induction target, lines using steps.induct with
  | case1 target =>
    rw [reading]
    exact ⟨by rw [steps]; rfl, rfl, by rw [Reading.stop, stepCount]; simp⟩
  | case2 target line rest hskip ih =>
    rw [reading, if_pos hskip]
    refine ih.below (isInside_of_isSkippable hskip) ?_ (by rw [stepCount]; omega)
    rw [steps, if_pos hskip, List.nil_append]
  | case3 target line rest hskip hlt =>
    have hend : EndsBlock target (line :: rest) := by
      intro l hl
      obtain rfl := Option.some.inj hl
      exact ⟨by simpa using hskip, hlt⟩
    rw [reading, if_neg hskip, if_pos hlt]
    refine ⟨(steps_of_endsBlock hend).symm, ?_, by rw [Reading.stop, stepCount]; simp⟩
    have hnone : ∀ l ∈ ([] : List Text), target ≤ indentOf l := by simp
    exact (afterBlock_append hnone hend).symm
  | case4 target line rest hskip hlt hpass ih =>
    rw [reading, if_neg hskip, if_neg hlt, if_pos hpass]
    refine ih.below (isInside_of_le (Nat.not_lt.mp hlt)) ?_ (by rw [stepCount]; omega)
    rw [steps, if_neg hskip, if_neg hlt, if_pos hpass, List.nil_append]
  | case5 target line rest hskip hlt hpass s hs ih =>
    exact covers_of_step (holdsStatement_of hskip hlt hpass) hs ih
  | case6 target line rest hskip hlt hpass cond hcond s after honce ih =>
    exact covers_of_guard (holdsStatement_of hskip hlt hpass) hcond honce ih
  | case7 target line rest hskip hlt hpass cond hcond honce body hbody ihyes ihno ih =>
    exact covers_of_condition_else (holdsStatement_of hskip hlt hpass) hcond honce hbody ihyes
      ihno ih
  | case8 target line rest hskip hlt hpass cond hcond honce hbody ihyes ih =>
    exact covers_of_condition (holdsStatement_of hskip hlt hpass) hcond honce hbody ihyes ih
  | case9 target line rest hskip hlt hpass item iter hloop ihbody ih =>
    exact covers_of_repetition (holdsStatement_of hskip hlt hpass) hloop ihbody ih
  | case10 target line rest hskip hlt hpass hstorage ih =>
    exact covers_of_storage (holdsStatement_of hskip hlt hpass) hstorage ih

/-! ### Blocks at a cursor -/

/-- **A block at a cursor**: its steps, and the cursor moved over the lines inside of the block. -/
theorem readBlock_eq (lines : List Text) (cursor target : Nat) :
    readBlock lines cursor target = (steps target (lines.drop cursor),
      cursor + ((lines.drop cursor).takeWhile (isInside target)).length) := by
  obtain ⟨hsteps, hrest, -⟩ := reading_covers target (lines.drop cursor)
  have hlen := congrArg List.length
    (List.takeWhile_append_dropWhile (p := isInside target) (l := lines.drop cursor))
  rw [List.length_append] at hlen
  rw [readBlock, hsteps, hrest, afterBlock]
  congr 2
  omega

/-- The script of a text is a block that begins at its first line. -/
theorem decompile_eq_steps (script : Text) :
    decompile script = steps (baseIndent (Text.lines script)) (Text.lines script) := by
  rw [decompile, readBlock_eq, List.drop_zero]

/-! ### The least indentation -/

section Least

variable {α : Type} {p : α → Bool} {f : α → Nat} {a : α} {xs : List α}

/-- The least value among some elements is that of an element. -/
theorem exists_least (h : ∃ a ∈ xs, p a = true) :
    ∃ a ∈ xs, p a = true ∧ f a = (((xs.filter p).map f).min?).getD 0 ∧
      ∀ b ∈ xs, p b = true → f a ≤ f b := by
  obtain ⟨x, hx, hp⟩ := h
  have hne : (xs.filter p).map f ≠ [] :=
    List.ne_nil_of_mem (List.mem_map_of_mem (List.mem_filter.mpr ⟨hx, hp⟩))
  obtain ⟨k, hk⟩ := Option.isSome_iff_exists.mp (List.isSome_min?_of_ne_nil hne)
  obtain ⟨hmem, hle⟩ := List.min?_eq_some_iff.mp hk
  obtain ⟨a, ha, rfl⟩ := List.mem_map.mp hmem
  obtain ⟨ha, hpa⟩ := List.mem_filter.mp ha
  refine ⟨a, ha, hpa, by rw [hk, Option.getD_some], fun b hb hpb => ?_⟩
  exact hle _ (List.mem_map_of_mem (List.mem_filter.mpr ⟨hb, hpb⟩))

theorem least_eq_of (hmem : a ∈ xs) (hp : p a = true) (hle : ∀ b ∈ xs, p b = true → f a ≤ f b) :
    (((xs.filter p).map f).min?).getD 0 = f a := by
  obtain ⟨b, hb, hpb, hleast, hle'⟩ := exists_least (f := f) ⟨a, hmem, hp⟩
  rw [← hleast]
  exact Nat.le_antisymm (hle' a hmem hp) (hle b hb hpb)

end Least

/-- The base of a script is the indentation of a statement, and of the shallowest one. -/
theorem exists_baseIndent (h : ∃ l ∈ lines, isSkippable l = false) :
    ∃ l ∈ lines, isSkippable l = false ∧ indentOf l = baseIndent lines ∧
      ∀ m ∈ lines, isSkippable m = false → indentOf l ≤ indentOf m := by
  have hstatement : ∃ l ∈ lines, (!isSkippable l) = true := by simpa using h
  have hleast := exists_least (p := (!isSkippable ·)) (f := indentOf) hstatement
  simpa [baseIndent] using hleast

theorem baseIndent_eq_of {l : Text} (hmem : l ∈ lines) (hskip : isSkippable l = false)
    (hle : ∀ m ∈ lines, isSkippable m = false → indentOf l ≤ indentOf m) :
    baseIndent lines = indentOf l :=
  least_eq_of hmem (by simp [hskip]) fun m hm hm' => hle m hm (by simpa using hm')

/-- The shallowest statement of the lines of steps is the first one. -/
theorem baseIndent_emit (hhead : ∀ s ∈ ns.head?, HoldsStatement n (pad n ++ headline s))
    (hne : ns ≠ []) : baseIndent (emit n ns) = n := by
  obtain ⟨s, rest, rfl⟩ := List.exists_cons_of_ne_nil hne
  obtain ⟨r, hr⟩ := emitStep_eq_cons n s
  obtain ⟨hskip, hindent, -⟩ := hhead s rfl
  have hmem : pad n ++ headline s ∈ emit n (s :: rest) := by
    rw [emit, hr]
    exact List.mem_cons_self
  rw [baseIndent_eq_of hmem hskip, hindent]
  intro l hl _
  rw [hindent]
  exact le_indentOf_of_mem_emit hl

/-- **The lines of steps as a script** are read from the indentation at which they were written. -/
theorem decompile_unlines_emit (hline : ∀ l ∈ emit n ns, IsLine l)
    (hhead : ∀ s ∈ ns.head?, HoldsStatement n (pad n ++ headline s)) :
    decompile (unlines (emit n ns)) = steps n (emit n ns) := by
  have hlines : Text.lines (unlines (emit n ns)) = emit n ns :=
    lines_unlines (fun l hl => (hline l hl).1) fun l hl => (hline l hl).2
  rw [decompile_eq_steps, hlines]
  by_cases hne : ns = []
  · rw [hne, emit, steps, steps]
  · rw [baseIndent_emit hhead hne]

/-- No line of a script is indented less than its shallowest statement. -/
theorem isInside_baseIndent {l : Text} (hl : l ∈ lines) : isInside (baseIndent lines) l = true := by
  by_cases hskip : isSkippable l = true
  · exact isInside_of_isSkippable hskip
  · have hskip' : isSkippable l = false := by simpa using hskip
    obtain ⟨m, -, -, hbase, hle⟩ := exists_baseIndent ⟨l, hl, hskip'⟩
    exact isInside_of_le (hbase ▸ hle l hl hskip')

/-! ### How far a block goes -/

/-- Where a block ends that is read from a cursor: at the cursor if there is no line, and else at
the first line from there on that is neither blank nor a comment and is indented less than the
block, or after the last line. -/
structure IsExtent (target : Nat) (lines : List Text) (cursor stop : Nat) : Prop where
  stays : lines.length ≤ cursor → stop = cursor
  le : cursor ≤ stop
  le_length : cursor < lines.length → stop ≤ lines.length
  inside : ∀ i (h : i < lines.length), cursor ≤ i → i < stop →
    isSkippable lines[i] = true ∨ target ≤ indentOf lines[i]
  ends : ∀ h : stop < lines.length,
    isSkippable lines[stop] = false ∧ indentOf lines[stop] < target

/-- The lines inside of a block tell where it ends. -/
theorem isExtent_takeWhile (target : Nat) (lines : List Text) (cursor : Nat) :
    IsExtent target lines cursor
      (cursor + ((lines.drop cursor).takeWhile (isInside target)).length) := by
  have hpre := List.takeWhile_prefix (isInside target) (l := lines.drop cursor)
  have hlen := hpre.length_le
  rw [List.length_drop] at hlen
  refine ⟨fun h => by omega, by omega, fun h => by omega, fun i h hle hlt => ?_, fun h => ?_⟩
  · have hmem : lines[i] ∈ (lines.drop cursor).takeWhile (isInside target) := by
      have heq := hpre.getElem (i := i - cursor) (by omega)
      rw [List.getElem_drop] at heq
      simp only [Nat.add_sub_cancel' hle] at heq
      exact heq ▸ List.getElem_mem _
    simpa [isInside] using List.mem_takeWhile_imp hmem
  · have hsplit := List.takeWhile_append_dropWhile (p := isInside target) (l := lines.drop cursor)
    have hrest := congrArg
      (List.drop ((lines.drop cursor).takeWhile (isInside target)).length) hsplit
    rw [List.drop_left, List.drop_drop, List.drop_eq_getElem_cons h] at hrest
    have hhead := List.head?_dropWhile_not (isInside target) (lines.drop cursor)
    rw [hrest, List.head?_cons] at hhead
    simpa [isInside] using hhead

/-- **How far a block goes.**  Reading a block at a cursor ends where the indentation of the lines
says, whatever statements they hold, and finds at most one step for each line that is passed over.
A script is read to its end. -/
theorem readBlock_extent :
    (∀ lines cursor target,
      IsExtent target lines cursor (readBlock lines cursor target).2 ∧
        stepCount (readBlock lines cursor target).1 ≤
          (readBlock lines cursor target).2 - cursor) ∧
      ∀ script, readBlock (Text.lines script) 0 (baseIndent (Text.lines script)) =
        (decompile script, (Text.lines script).length) := by
  refine ⟨fun lines cursor target => ⟨?_, ?_⟩, fun script => ?_⟩
  · rw [readBlock_eq]
    exact isExtent_takeWhile target lines cursor
  · have hcount := (reading_covers target (lines.drop cursor)).count_le
    rw [readBlock]
    dsimp only
    omega
  · have hall : (Text.lines script).takeWhile (isInside (baseIndent (Text.lines script))) =
        Text.lines script :=
      List.takeWhile_eq_self_iff.mpr fun l hl => isInside_baseIndent hl
    rw [readBlock_eq, decompile_eq_steps, List.drop_zero, hall, Nat.zero_add]

end Script

end InterviewPlan
