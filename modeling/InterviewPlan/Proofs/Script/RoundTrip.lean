import InterviewPlan.Proofs.Script.Emission

/-!
# Reading the lines of a plan

The lines that are written for steps are read back as the steps, in a normal form that leaves out
what the lines do not say.  Readable steps read back line by line; that a line is also taken for a
part of the right step depends on the steps around it, in three places: an else-branch must not be
taken from the next step, a guard that a branch has written itself must not find a name to guard,
and the flag of a guard must not be mistaken for its end.

## Main definitions

* `Script.normalStep`, `Script.normal`: steps as they are read back
* `Step.Unambiguous`: a step whose lines are not taken for those of another
* `Script.EndsBlock`: lines at which a block ends

## Main results

* `Script.steps_emitStep`: the lines of a step read back if those of the blocks below it do
* `Script.steps_emit`: the lines of readable and unambiguous steps read back
-/

namespace InterviewPlan

open Text Statement

namespace Script

mutual

/-- A step as it is read back from its lines: an empty else-branch is absent, a flag is explicit, a
percentage is a whole number, and a snapshot has no arguments. -/
def normalStep : Step → Step
  | .progress value => progressStep value
  | .branch cond yes no =>
    .branch cond (normal yes) (match no with
      | none => none
      | some no => if no.isEmpty then none else some (normal no))
  | .loop item iter body => .loop item iter (normal body)
  | .once name flag => .once name (some (Step.effectiveFlag name flag))
  | .snapshot _ => .snapshot .plain
  | s => s

/-- Steps as they are read back from their lines. -/
def normal : List Step → List Step
  | [] => []
  | s :: rest => normalStep s :: normal rest

end

end Script

namespace Step

open Script

/-- A step whose lines are not taken for those of another, given the steps after it.  An else-branch
that is absent is not found in the next step, a condition that guards by a flag finds nothing to
guard in the branch, and no flag has both a quotation mark and a closing parenthesis. -/
def Unambiguous : Step → List Step → Prop
  | branch cond yes no, rest =>
    (∀ flag ∈ Pattern.guardedFlag? cond,
        guardedName? flag (orPlaceholder 0 (emit 0 yes)) = none) ∧
      (no.getD [] = [] → ∀ next ∈ rest.head?, next ≠ ask elseLine)
  | once name flag, _ => ¬ ('"' ∈ effectiveFlag name flag ∧ ')' ∈ effectiveFlag name flag)
  | _, _ => True

/-- The value that a step asks for. -/
def asked? : Step → Option Text
  | ask var => some var
  | _ => none

theorem asked?_eq_some_iff {s : Step} {var : Text} : s.asked? = some var ↔ s = ask var := by
  cases s with
  | ask _ => rw [asked?, Option.some.injEq, ask.injEq]
  | _ => simp [asked?]

instance (s : Step) (var : Text) : Decidable (s = ask var) :=
  decidable_of_iff (s.asked? = some var) asked?_eq_some_iff

instance : ∀ s rest, Decidable (Unambiguous s rest)
  | branch cond yes no, rest =>
    inferInstanceAs (Decidable
      ((∀ flag ∈ Pattern.guardedFlag? cond,
          guardedName? flag (orPlaceholder 0 (emit 0 yes)) = none) ∧
        (no.getD [] = [] → ∀ next ∈ rest.head?, next ≠ ask elseLine)))
  | once name flag, _ =>
    inferInstanceAs (Decidable ¬ ('"' ∈ effectiveFlag name flag ∧ ')' ∈ effectiveFlag name flag))
  | ask _, _ | enter _, _ | progress _, _ | gather _, _ | loop .., _ | snapshot _, _ =>
    .isTrue trivial

end Step

namespace Script

variable {n m : Nat} {s : Step} {ns : List Step} {line cond item iter : Text}
  {ls rest after more : List Text}

/-! ### Where a block ends -/

/-- Lines at which a block of an indentation ends: there are none, or the first of them holds a
statement with less. -/
def EndsBlock (target : Nat) (lines : List Text) : Prop :=
  ∀ line ∈ lines.head?, isSkippable line = false ∧ indentOf line < target

theorem endsBlock_nil (target : Nat) : EndsBlock target [] := by simp [EndsBlock]

theorem EndsBlock.mono (h : EndsBlock n ls) (hnm : n ≤ m) : EndsBlock m ls := fun line hline =>
  ⟨(h line hline).1, (h line hline).2.trans_le hnm⟩

theorem endsBlock_pad_cons (n : Nat) {t : Text} (ht : IsTrimmed t) (hcomment : isComment t = false)
    (rest : List Text) : EndsBlock (n + 1) ((pad n ++ t) :: rest) := by
  intro line hline
  obtain rfl : pad n ++ t = line := by simpa using hline
  refine ⟨isSkippable_pad_append ht hcomment, ?_⟩
  rw [indentOf_pad_append, indentOf_eq_zero ht]
  omega

theorem steps_of_endsBlock (h : EndsBlock n ls) : steps n ls = [] := by
  cases ls with
  | nil => rw [steps]
  | cons line rest =>
    obtain ⟨hskip, hlt⟩ := h line rfl
    rw [steps, if_neg (by rw [hskip]; decide), if_pos hlt]

/-- **A block is passed over** up to the line that ends it. -/
theorem afterBlock_append (hls : ∀ l ∈ ls, n ≤ indentOf l) (h : EndsBlock n more) :
    afterBlock n (ls ++ more) = more := by
  rw [afterBlock, List.dropWhile_append_of_pos fun l hl => by simp [isInside, hls l hl]]
  cases more with
  | nil => rfl
  | cons line rest =>
    obtain ⟨hskip, hlt⟩ := h line rfl
    rw [List.dropWhile_cons_of_neg]
    simpa [isInside, hskip] using hlt

/-- The lines of a block are those in front of the line that ends it. -/
theorem takeWhile_isInside_append (hls : ∀ l ∈ ls, n ≤ indentOf l) (h : EndsBlock n more) :
    (ls ++ more).takeWhile (isInside n) = ls := by
  have hsplit := List.takeWhile_append_dropWhile (p := isInside n) (l := ls ++ more)
  have hmore : (ls ++ more).dropWhile (isInside n) = more := afterBlock_append hls h
  rw [hmore] at hsplit
  exact List.append_cancel_right hsplit

theorem isUnderGuard_eq_false (h : isSkippable line = false) (hn : indentOf line ≤ n) :
    isUnderGuard n line = false := by
  have hne : (trim line).isEmpty = false := (Bool.or_eq_false_iff.mp h).1
  rw [isUnderGuard, hne]
  simpa using hn

/-- A line that would stand in the body of a guard is no step of the block. -/
theorem steps_cons_of_isUnderGuard (h : isUnderGuard n line = true) (rest : List Text) :
    steps n (line :: rest) = steps n rest := by
  rw [isUnderGuard, Bool.or_eq_true, decide_eq_true_iff] at h
  rw [steps]
  by_cases hskip : isSkippable line = true
  · rw [if_pos hskip]
  · have hlt := h.resolve_left fun hblank => hskip (by simp [isSkippable, hblank])
    rw [if_neg hskip, if_neg (Nat.not_lt.mpr hlt.le), if_pos (by simp [hlt])]

/-- The body of a guard is what stands further to the right. -/
theorem span_isUnderGuard (hls : ∀ l ∈ ls, n < indentOf l) (h : EndsBlock (n + 1) more) :
    (ls ++ more).takeWhile (isUnderGuard n) = ls ∧
      (ls ++ more).dropWhile (isUnderGuard n) = more := by
  have hpos : ∀ l ∈ ls, isUnderGuard n l = true := fun l hl => by simp [isUnderGuard, hls l hl]
  rw [List.takeWhile_append_of_pos hpos, List.dropWhile_append_of_pos hpos]
  cases more with
  | nil => simp
  | cons line rest =>
    obtain ⟨hskip, hlt⟩ := h line rfl
    have hneg := isUnderGuard_eq_false hskip (Nat.lt_succ_iff.mp hlt)
    rw [List.takeWhile_cons_of_neg (by rw [hneg]; decide),
      List.dropWhile_cons_of_neg (by rw [hneg]; decide)]
    simp

/-! ### One statement -/

/-- A line that holds a statement of the block at an indentation. -/
structure HoldsStatement (target : Nat) (line : Text) : Prop where
  isSkippable : isSkippable line = false
  indentOf : indentOf line = target
  ne_placeholder : trim line ≠ placeholder

/-- A line that is neither skipped nor passed over nor the end of the block holds a statement. -/
theorem holdsStatement_of (hskip : ¬ isSkippable line = true) (hlt : ¬ indentOf line < n)
    (hpass : ¬ (decide (n < indentOf line) || decide (trim line = placeholder)) = true) :
    HoldsStatement n line := by
  rw [Bool.or_eq_true, not_or, decide_eq_true_iff, decide_eq_true_iff] at hpass
  exact ⟨by simpa using hskip, by omega, hpass.2⟩

section Statement

variable (hline : HoldsStatement n line)
include hline

theorem HoldsStatement.not_isSkippable : ¬ Script.isSkippable line = true := by
  rw [hline.isSkippable]
  decide

theorem HoldsStatement.not_indentOf_lt : ¬ Script.indentOf line < n := by
  rw [hline.indentOf]
  exact Nat.lt_irrefl n

theorem HoldsStatement.not_passed :
    ¬ (decide (n < Script.indentOf line) || decide (trim line = placeholder)) = true := by
  simp [hline.indentOf, hline.ne_placeholder]

theorem steps_of_step (h : ofText (trim line) = .step s) :
    steps n (line :: rest) = s :: steps n rest := by
  rw [steps, if_neg hline.not_isSkippable, if_neg hline.not_indentOf_lt, if_neg hline.not_passed]
  simp only [h]

theorem steps_of_guard (h : ofText (trim line) = .condition cond)
    (honce : once? n cond rest = some (s, after)) :
    steps n (line :: rest) = s :: steps n after := by
  rw [steps, if_neg hline.not_isSkippable, if_neg hline.not_indentOf_lt, if_neg hline.not_passed]
  simp only [h]
  split
  · next s' after' h' =>
    rw [honce] at h'
    obtain ⟨rfl, rfl⟩ := Prod.mk.inj (Option.some.inj h')
    rfl
  · next h' =>
    rw [honce] at h'
    cases h'

theorem steps_of_condition (h : ofText (trim line) = .condition cond)
    (honce : once? n cond rest = none) :
    steps n (line :: rest) =
      match elseBody? n (afterBlock (n + 2) rest) with
      | some body =>
        .branch cond (steps (n + 2) rest) (some (steps (n + 2) body)) ::
          steps n (afterBlock (n + 2) body)
      | none =>
        .branch cond (steps (n + 2) rest) none :: steps n (afterBlock (n + 2) rest) := by
  rw [steps, if_neg hline.not_isSkippable, if_neg hline.not_indentOf_lt, if_neg hline.not_passed]
  simp only [h]
  split
  · next s' after' h' =>
    rw [honce] at h'
    cases h'
  · split <;> next h' => simp only [indentStep] at h' ⊢; rw [h']

theorem steps_of_repetition (h : ofText (trim line) = .repetition item iter) :
    steps n (line :: rest) =
      .loop item iter (steps (n + 2) rest) :: steps n (afterBlock (n + 2) rest) := by
  rw [steps, if_neg hline.not_isSkippable, if_neg hline.not_indentOf_lt, if_neg hline.not_passed]
  simp only [h, indentStep]

theorem steps_of_storage (h : ofText (trim line) = .storage) :
    steps n (line :: rest) = .snapshot .plain :: steps n (afterCall n line rest) := by
  rw [steps, if_neg hline.not_isSkippable, if_neg hline.not_indentOf_lt, if_neg hline.not_passed]
  simp only [h]

end Statement

/-- The first line of a readable step holds a statement. -/
theorem holdsStatement_headline (n : Nat) (h : s.Readable) :
    HoldsStatement n (pad n ++ headline s) where
  isSkippable := isSkippable_pad_append (isTrimmed_headline h) (isComment_headline h)
  indentOf := by rw [indentOf_pad_append, indentOf_eq_zero (isTrimmed_headline h), Nat.add_zero]
  ne_placeholder := by
    rw [trim_pad_append, (isTrimmed_headline h).2]
    intro hplace
    obtain rfl := eq_ask_of_headline (Or.inl rfl) hplace
    exact h.2.2.1 rfl

theorem trim_pad_headline (n : Nat) (h : s.Readable) :
    trim (pad n ++ headline s) = headline s := by
  rw [trim_pad_append, (isTrimmed_headline h).2]

/-! ### Calls over several lines -/

/-- Blanks in front of a line open and close nothing. -/
theorem parenDelta_append_of_blank {b : Text} (hb : ∀ c ∈ b, isBlank c = true) (t : Text) :
    parenDelta none (b ++ t) = parenDelta none t := by
  induction b with
  | nil => rfl
  | cons c b ih =>
    obtain ⟨hc, hb⟩ := List.forall_mem_cons.mp hb
    have hne : ∀ d, isBlank d = false → c ≠ d := by
      rintro d hd rfl
      rw [hc] at hd
      cases hd
    rw [List.cons_append, parenDelta]
    simp only [hne '"' rfl, hne '\'' rfl, hne '(' rfl, hne ')' rfl, hne '#' rfl, decide_false,
      Bool.or_self, Bool.false_eq_true, if_false]
    exact ih hb

theorem parenDelta_pad_append (n : Nat) (t : Text) :
    parenDelta none (pad n ++ t) = parenDelta none t :=
  parenDelta_append_of_blank (fun _ => isBlank_of_mem_pad) t

/-- A call goes on while parentheses are open. -/
theorem afterOpenCall_append {depth : Int} (hls : ∀ l ∈ ls, n ≤ indentOf l)
    (hdepth : ∀ k < ls.length, 0 < depth + ((ls.take k).map (parenDelta none)).sum) :
    afterOpenCall n depth (ls ++ more) =
      afterOpenCall n (depth + (ls.map (parenDelta none)).sum) more := by
  induction ls generalizing depth with
  | nil => simp
  | cons l ls ih =>
    have hpos : 0 < depth := by simpa using hdepth 0 (by simp)
    have hindent := hls l List.mem_cons_self
    rw [List.cons_append, afterOpenCall, if_neg (by simp; omega), ih, List.map_cons, List.sum_cons,
      Int.add_assoc]
    · intro x hx
      exact hls x (List.mem_cons_of_mem l hx)
    · intro k hk
      have h := hdepth (k + 1) (by simpa using hk)
      rwa [List.take_succ_cons, List.map_cons, List.sum_cons, ← Int.add_assoc] at h

/-- A call has ended when no parenthesis is open. -/
theorem afterOpenCall_of_nonpos {depth : Int} (h : depth ≤ 0) (lines : List Text) :
    afterOpenCall n depth lines = lines := by
  cases lines with
  | nil => rfl
  | cons line rest => rw [afterOpenCall, if_pos (by simp [h])]

/-- What the lines between the opening of a snapshot and its end open and close: only the entries
count. -/
theorem map_parenDelta_snapshotBody (n : Nat) (args : Snapshot) :
    (snapshotBody n args).map (parenDelta none) =
      if args.data.isEmpty then [0, 0]
      else 0 :: 0 :: args.entryTexts.map (parenDelta none) ++ [0] := by
  have hpersistent :
      parenDelta none ("persistent=".toList ++ truth args.persistent ++ [',']) = 0 := by
    cases args.persistent <;> rfl
  have hentries : (args.entryTexts.map (pad (n + 4) ++ ·)).map (parenDelta none) =
      args.entryTexts.map (parenDelta none) := by
    rw [List.map_map]
    exact List.map_congr_left fun _ _ => parenDelta_pad_append ..
  have hopen : parenDelta none "data=\x7b".toList = 0 := rfl
  have hclose : parenDelta none "\x7d,".toList = 0 := rfl
  have hempty : parenDelta none "data=\x7b\x7d,".toList = 0 := rfl
  unfold snapshotBody
  split
  · rw [List.map_cons, List.map_singleton, parenDelta_pad_append, parenDelta_pad_append,
      hpersistent, hempty]
  · rw [List.map_cons, List.map_append, List.map_cons, List.map_singleton, hentries,
      parenDelta_pad_append, parenDelta_pad_append, parenDelta_pad_append, hpersistent, hopen,
      hclose]
    rfl

/-- Between its opening and its end, a balanced snapshot never closes more than it has opened. -/
theorem parenDelta_snapshotBody {args : Snapshot} (h : args.IsBalanced) (n : Nat) :
    (∀ k, 0 ≤ (((snapshotBody n args).take k).map (parenDelta none)).sum) ∧
      ((snapshotBody n args).map (parenDelta none)).sum = 0 := by
  obtain ⟨hbegin, htotal⟩ := h
  simp only [List.map_take, map_parenDelta_snapshotBody]
  split
  · refine ⟨fun k => ?_, rfl⟩
    rcases k with _ | _ | k <;> simp
  · constructor
    · intro k
      have hlast : ∀ j, (([0] : List Int).take j).sum = 0 := fun j => by cases j <;> simp
      rw [List.take_append, List.sum_append, hlast, Int.add_zero]
      rcases k with _ | _ | k
      · simp
      · simp
      · simpa [List.map_take] using hbegin k
    · simpa using htotal

/-- **A snapshot is passed over** up to its last line. -/
theorem afterCall_snapshot {args : Snapshot} (h : args.IsBalanced) (n : Nat) (more : List Text) :
    afterCall n (pad n ++ snapshotOpening) (snapshotBody n args ++ [pad n ++ [')']] ++ more) =
      more := by
  obtain ⟨hbegin, htotal⟩ := parenDelta_snapshotBody h n
  have hindent : ∀ l ∈ snapshotBody n args, n ≤ indentOf l := fun l hl =>
    (lt_indentOf_of_mem_snapshotBody hl).le
  have hopening : parenDelta none (pad n ++ snapshotOpening) = 1 := by
    rw [parenDelta_pad_append]
    rfl
  have hclosing : parenDelta none (pad n ++ [')']) = -1 := by
    rw [parenDelta_pad_append]
    rfl
  rw [afterCall, hopening, List.append_assoc, afterOpenCall_append hindent, htotal,
    afterOpenCall_append, List.map_singleton, hclosing]
  · exact afterOpenCall_of_nonpos (by decide) more
  · intro l hl
    rw [List.mem_singleton.mp hl]
    exact le_indentOf_pad_append n _
  · intro k hk
    obtain rfl : k = 0 := by simpa using hk
    simp
  · intro k _
    have hnonneg := hbegin k
    omega

/-! ### Guards -/

theorem guardedName?_append (flag : Text) (ls more : List Text) :
    guardedName? flag (ls ++ more) = (guardedName? flag ls).or (guardedName? flag more) := by
  rw [guardedName?, List.map_append, List.find?_append]
  rfl

theorem guardedName?_of_isSkippable {line : Text} (h : isSkippable line = true) (flag : Text)
    (ls : List Text) : guardedName? flag (line :: ls) = guardedName? flag ls := by
  rw [isSkippable] at h
  rw [guardedName?, List.map_cons, List.find?_cons_of_neg, guardedName?]
  rw [← Bool.not_or, h]
  simp

/-- A guard takes a statement for the name of its step unless it assigns to the flag. -/
theorem guardedName?_of_statement {line flag : Text} (hskip : isSkippable line = false)
    (hassigns : assigns flag (trim line) = false) (ls : List Text) :
    guardedName? flag (line :: ls) = some (trim line) := by
  have hname : (!(trim line).isEmpty && !isComment (trim line) &&
      !assigns flag (trim line)) = true := by
    rw [← Bool.not_or, show ((trim line).isEmpty || isComment (trim line)) = false from hskip,
      hassigns]
    rfl
  rw [guardedName?, List.map_cons]
  exact List.find?_cons_of_pos hname

/-- The name that a guard finds does not depend on the indentation. -/
theorem guardedName?_emit (flag : Text) (n : Nat) (ns : List Step) :
    guardedName? flag (orPlaceholder n (emit n ns)) =
      guardedName? flag (orPlaceholder 0 (emit 0 ns)) := by
  have hshift : orPlaceholder n (emit n ns) = (orPlaceholder 0 (emit 0 ns)).map (pad n ++ ·) := by
    have h := orPlaceholder_add n 0 (emit 0 ns)
    rwa [← emit_add] at h
  rw [hshift, guardedName?, guardedName?, List.map_map]
  congr 1
  exact List.map_congr_left fun l _ => trim_pad_append n l

theorem once?_eq_none (hcond : ∀ flag ∈ Pattern.guardedFlag? cond, guardedName? flag ls = none)
    (hls : ∀ l ∈ ls, n < indentOf l) (h : EndsBlock (n + 1) more) :
    once? n cond (ls ++ more) = none := by
  rw [once?]
  cases hflag : Pattern.guardedFlag? cond with
  | none => rfl
  | some flag =>
    rw [Option.bind_eq_bind, Option.bind_some, (span_isUnderGuard hls h).1, hcond flag hflag]
    rfl

/-- A branch whose condition guards by a flag is no guard if its lines name nothing. -/
theorem once?_orPlaceholder_emit (hcond : ∀ flag ∈ Pattern.guardedFlag? cond,
    guardedName? flag (orPlaceholder 0 (emit 0 ns)) = none) (h : EndsBlock (n + 1) more) :
    once? n cond (orPlaceholder (n + 2) (emit (n + 2) ns) ++ more) = none := by
  refine once?_eq_none ?_ ?_ h
  · intro flag hflag
    rw [guardedName?_emit]
    exact hcond flag hflag
  · intro l hl
    have hle : n + 2 ≤ indentOf l := le_indentOf_of_mem_orPlaceholder hl
    omega

/-- **A guard that was written** reads back, with its name and its flag. -/
theorem once?_guardCondition {name flag : Text} (hname : IsInline name)
    (hcomment : isComment name = false) (hassigns : assigns flag name = false)
    (hflag : IsInline flag) (hmarks : ¬ ('"' ∈ flag ∧ ')' ∈ flag)) (h : EndsBlock (n + 1) more) :
    once? n (Pattern.guardCondition flag)
        ([pad (n + 2) ++ name, pad (n + 2) ++ flagLine flag] ++ more) =
      some (.once name (some flag), more) := by
  have hindent : ∀ l ∈ [pad (n + 2) ++ name, pad (n + 2) ++ flagLine flag], n < indentOf l := by
    intro l hl
    have hle : n + 2 ≤ indentOf l := by
      simp only [List.mem_cons, List.not_mem_nil, or_false] at hl
      rcases hl with rfl | rfl
      · exact le_indentOf_pad_append _ name
      · exact le_indentOf_pad_append _ (flagLine flag)
    omega
  obtain ⟨htake, hdrop⟩ := span_isUnderGuard hindent h
  have hread :
      guardedName? flag [pad (n + 2) ++ name, pad (n + 2) ++ flagLine flag] = some name := by
    rw [guardedName?, List.map_cons, trim_pad_append, hname.2.1, List.find?_cons_of_pos]
    simp [hname.1, hcomment, hassigns]
  rw [once?, Pattern.guardedFlag?_guardCondition hflag hmarks, Option.bind_eq_bind,
    Option.bind_some, htake, hdrop, hread]
  rfl

/-! ### Blocks -/

theorem steps_placeholder (n : Nat) (rest : List Text) :
    steps n ((pad n ++ placeholder) :: rest) = steps n rest := by
  have hindent : indentOf (pad n ++ placeholder) = n := by
    rw [indentOf_pad_append, indentOf_eq_zero isInline_placeholder.isTrimmed, Nat.add_zero]
  have hskip : isSkippable (pad n ++ placeholder) = false :=
    isSkippable_pad_append isInline_placeholder.isTrimmed rfl
  rw [steps, if_neg (by rw [hskip]; decide), if_neg (by omega),
    if_pos (by simp [trim_pad_append, isInline_placeholder.2.1])]

/-- A block without lines is read as one without steps. -/
theorem steps_orPlaceholder (n : Nat) (ns : List Step) (more : List Text) :
    steps n (orPlaceholder n (emit n ns) ++ more) = steps n (emit n ns ++ more) := by
  unfold orPlaceholder
  split
  · next hempty =>
    rw [List.isEmpty_iff.mp hempty, List.singleton_append, steps_placeholder]
    rfl
  · rfl

theorem emit_ne_nil (h : ns ≠ []) : emit n ns ≠ [] := by
  obtain ⟨s, rest, rfl⟩ := List.exists_cons_of_ne_nil h
  obtain ⟨r, hr⟩ := emitStep_eq_cons n s
  rw [emit, hr]
  simp

/-- The lines of steps are passed over up to the line that ends their block. -/
theorem afterBlock_emit_append (ns : List Step) (h : EndsBlock n more) :
    afterBlock n (emit n ns ++ more) = more :=
  afterBlock_append (fun _ => le_indentOf_of_mem_emit) h

/-- A block is passed over with its placeholder if it has no steps. -/
theorem afterBlock_orPlaceholder_append (ns : List Step) (h : EndsBlock n more) :
    afterBlock n (orPlaceholder n (emit n ns) ++ more) = more :=
  afterBlock_append (fun _ => le_indentOf_of_mem_orPlaceholder) h

/-- The lines of further steps end a block that is indented deeper. -/
theorem endsBlock_emit_append (hhead : ∀ s ∈ ns.head?, HoldsStatement n (pad n ++ headline s))
    (hafter : EndsBlock n after) : EndsBlock (n + 1) (emit n ns ++ after) := by
  cases ns with
  | nil => exact hafter.mono (by omega)
  | cons s rest =>
    obtain ⟨r, hr⟩ := emitStep_eq_cons n s
    obtain ⟨hskip, hindent, -⟩ := hhead s rfl
    rw [emit, hr]
    intro line hline
    obtain rfl : pad n ++ headline s = line := by simpa using hline
    exact ⟨hskip, by omega⟩

/-- The lines of further steps do not begin an else-branch. -/
theorem elseBody?_emit_append (hhead : ∀ s ∈ ns.head?, trim (pad n ++ headline s) ≠ elseLine)
    (hafter : EndsBlock n after) : elseBody? n (emit n ns ++ after) = none := by
  cases ns with
  | nil =>
    cases after with
    | nil => rfl
    | cons line rest =>
      have hlt := (hafter line rfl).2
      rw [emit, List.nil_append, elseBody?, if_neg]
      omega
  | cons s rest =>
    obtain ⟨r, hr⟩ := emitStep_eq_cons n s
    rw [emit, hr, List.cons_append, List.cons_append, elseBody?, if_neg]
    exact fun helse => hhead s rfl helse.2

theorem endsBlock_elseLines {no : Option (List Step)} (h : EndsBlock (n + 1) more) :
    EndsBlock (n + 1) (elseLines n no ++ more) := by
  unfold elseLines
  split
  · exact h
  · unfold underElse
    split
    · exact h
    · exact endsBlock_pad_cons n isInline_elseLine.isTrimmed rfl _

/-- An else-branch with steps begins with its header. -/
theorem elseBody?_elseLines (hne : ns ≠ []) (more : List Text) :
    elseBody? n (elseLines n (some ns) ++ more) = some (emit (n + 2) ns ++ more) := by
  have hlines : (emit (n + 2) ns).isEmpty = false := by
    simpa using emit_ne_nil (n := n + 2) hne
  have hindent : indentOf (pad n ++ elseLine) = n := by
    rw [indentOf_pad_append, indentOf_eq_zero isInline_elseLine.isTrimmed, Nat.add_zero]
  have htrim : trim (pad n ++ elseLine) = elseLine := by
    rw [trim_pad_append, isInline_elseLine.2.1]
  rw [elseLines, underElse, if_neg (by rw [hlines]; decide), List.cons_append, elseBody?,
    if_pos ⟨hindent, htrim⟩]

/-- **The lines of a step read back** if those of the blocks below it do, whatever lines follow: the
step in normal form comes first, and then what the lines after it are read as. -/
theorem steps_emitStep {rest : List Step} (hreadable : s.Readable) (hclear : s.Unambiguous rest)
    (hbelow : ∀ block ∈ s.blocks, ∀ {n : Nat} {after : List Text}, EndsBlock n after →
      steps n (emit n block ++ after) = normal block)
    (hmore : EndsBlock (n + 1) more)
    (hfirst : (∀ next ∈ rest.head?, next ≠ .ask elseLine) → elseBody? n more = none) :
    steps n (emitStep n s ++ more) = normalStep s :: steps n more := by
  have hline := holdsStatement_headline n hreadable
  have hread := congrArg ofText (trim_pad_headline n hreadable)
  cases s with
  | ask var =>
    rw [emitStep_ask, List.singleton_append, steps_of_step hline (hread.trans hreadable.2.2.2)]
    rfl
  | enter name =>
    rw [emitStep_enter, List.singleton_append,
      steps_of_step hline (hread.trans (ofText_enter name))]
    rfl
  | progress value =>
    rw [emitStep_progress, List.singleton_append,
      steps_of_step hline (hread.trans (ofText_progress value))]
    rfl
  | gather list =>
    rw [emitStep_gather, List.singleton_append,
      steps_of_step hline (hread.trans (ofText_gather hreadable.1))]
    rfl
  | branch cond yes no =>
    obtain ⟨hguard, hnext⟩ := hclear
    have helse : EndsBlock (n + 1) (elseLines n no ++ more) := endsBlock_elseLines hmore
    have honce := once?_orPlaceholder_emit hguard helse
    have hpassed := afterBlock_orPlaceholder_append yes (helse.mono (Nat.le_succ (n + 1)))
    have hyes := (steps_orPlaceholder (n + 2) yes _).trans
      (hbelow yes (by simp) (helse.mono (Nat.le_succ _)))
    rw [emitStep_branch, List.cons_append, List.append_assoc,
      steps_of_condition hline (hread.trans (ofText_condition hreadable)) honce, hpassed, hyes]
    rcases no with _ | _ | ⟨e, es⟩
    · rw [elseLines, List.nil_append, hfirst (hnext rfl)]
      rfl
    · rw [elseLines_some_nil, List.nil_append, hfirst (hnext rfl)]
      rfl
    · have hno := hbelow (e :: es) (by simp) (hmore.mono (Nat.le_succ _))
      have hrest := afterBlock_emit_append (e :: es) (hmore.mono (Nat.le_succ (n + 1)))
      rw [elseBody?_elseLines (List.cons_ne_nil e es)]
      dsimp only
      rw [hno, hrest]
      rfl
  | loop item iter body =>
    have hbody := (steps_orPlaceholder (n + 2) body _).trans
      (hbelow body (by simp) (hmore.mono (Nat.le_succ _)))
    have hrest := afterBlock_orPlaceholder_append body (hmore.mono (Nat.le_succ (n + 1)))
    rw [emitStep_loop, List.cons_append,
      steps_of_repetition hline (hread.trans (ofText_repetition hreadable)), hbody, hrest]
    rfl
  | once name flag =>
    obtain ⟨hname, hcomment, hassigns, hflag⟩ := hreadable
    have honce := once?_guardCondition hname hcomment hassigns hflag hclear hmore
    have hcond := Pattern.isInline_guardCondition hflag
    rw [emitStep_once, List.cons_append,
      steps_of_guard hline (hread.trans (ofText_condition (Pattern.clause?_space hcond))) honce]
    rfl
  | snapshot args =>
    have hrest : afterCall n (pad n ++ headline (.snapshot args))
        (snapshotBody n args ++ [pad n ++ [')']] ++ more) = more :=
      afterCall_snapshot hreadable n more
    rw [emitStep_snapshot, List.cons_append, steps_of_storage hline (hread.trans ofText_storage),
      hrest]
    rfl

/-- **The lines of steps read back**: what readable and unambiguous steps are written as is read as
their normal form, up to the line that ends the block. -/
theorem steps_emit (h : Step.Throughout (fun s rest => s.Readable ∧ s.Unambiguous rest) ns)
    (hafter : EndsBlock n after) : steps n (emit n ns ++ after) = normal ns := by
  -- the lines after a block inside of another one are those of the steps after it, so `after` is
  -- general, and all that is kept of it is that it ends the block
  induction h generalizing n after with
  | nil => exact steps_of_endsBlock hafter
  | @cons s rest head below tail ihbelow ihtail =>
    have hreadable : ∀ next ∈ rest.head?, next.Readable := by
      intro next hnext
      obtain ⟨_, hnext, -⟩ := tail.exists_of_mem_head? hnext
      exact hnext
    have hmore : EndsBlock (n + 1) (emit n rest ++ after) :=
      endsBlock_emit_append (fun next hnext => holdsStatement_headline n (hreadable next hnext))
        hafter
    have hfirst : (∀ next ∈ rest.head?, next ≠ .ask elseLine) →
        elseBody? n (emit n rest ++ after) = none := by
      intro hne
      refine elseBody?_emit_append (fun next hnext helse => ?_) hafter
      rw [trim_pad_headline n (hreadable next hnext)] at helse
      exact hne next hnext (eq_ask_of_headline (Or.inr rfl) helse)
    rw [emit, List.append_assoc, normal, steps_emitStep head.1 head.2 ihbelow hmore hfirst,
      ihtail hafter]

end Script

end InterviewPlan
