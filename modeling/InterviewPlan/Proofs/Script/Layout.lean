import InterviewPlan.Proofs.Script.Image

/-!
# Moving a script sideways

What is read from a script depends on what its lines say and on how far they are indented against
each other.  Lines that are all moved to the left by the same number of blanks read as the same
steps.  The indentation of blank lines says nothing, and at the end they may be left out.

## Main definitions

* `Script.IsShifted`: a line that says the same further to the left
* `Script.Realigned`: lines that say the same further to the left
* `Script.IsGrounded`: lines whose least indentation is that of a statement

## Main results

* `Script.Realigned.steps`: realigned lines read as the same steps
* `Script.steps_map_drop`, `Script.steps_append_blank`: the two ways to realign lines
* `Extract.sharedIndent_eq_add`: the indentation that lines share, in two parts
* `Script.steps_dedent`: lines without the indentation that they share read as the same steps
-/

namespace InterviewPlan

open Text Statement

namespace Text

/-- The beginning of a line as far as it is indented. -/
theorem of_mem_take {p : Char → Bool} {k : Nat} {l : Text} {c : Char} (h : k ≤ indentWidth p l)
    (hc : c ∈ l.take k) : p c = true := by
  have hbegin : l.take k <+: l.takeWhile p := by
    refine List.prefix_of_prefix_length_le (List.take_prefix k l) (List.takeWhile_prefix p) ?_
    exact (List.length_take_le k l).trans h
  exact List.mem_takeWhile_imp (hbegin.subset hc)

end Text

namespace Script

variable {k n : Nat} {l l' : Text} {ls ls' : List Text}

/-! ### Lines -/

/-- A line that says the same as another, `k` blanks further to the left unless it is blank. -/
structure IsShifted (k : Nat) (l l' : Text) : Prop where
  trim_eq : trim l = trim l'
  parenDelta_eq : parenDelta none l = parenDelta none l'
  indentOf_eq : trim l' ≠ [] → indentOf l = indentOf l' + k

theorem trim_ne_nil_of_statement (h : isSkippable l = false) : trim l ≠ [] := by
  simpa using (Bool.or_eq_false_iff.mp h).1

theorem isShifted_pad_append (k : Nat) (r : Text) : IsShifted k (pad k ++ r) r where
  trim_eq := trim_pad_append k r
  parenDelta_eq := parenDelta_pad_append k r
  indentOf_eq _ := by rw [indentOf_pad_append, Nat.add_comm]

theorem pad_append_drop (h : k ≤ indentOf l) : pad k ++ l.drop k = l := by
  have htake : l.take k = pad k := by
    refine List.eq_replicate_iff.mpr ⟨List.length_take_of_le ?_, fun c hc => ?_⟩
    · exact h.trans (List.takeWhile_prefix _).length_le
    · simpa using of_mem_take h hc
  rw [← htake, List.take_append_drop]

theorem parenDelta_of_blank (h : ∀ c ∈ l, isBlank c = true) : parenDelta none l = 0 := by
  have hdelta := parenDelta_append_of_blank h []
  rwa [List.append_nil] at hdelta

theorem trim_drop_of_blank (h : trim l = []) (k : Nat) : trim (l.drop k) = [] :=
  trim_eq_nil_iff.mpr fun c hc => trim_eq_nil_iff.mp h c (List.mem_of_mem_drop hc)

theorem isShifted_of_blank (h : trim l = []) (h' : trim l' = []) : IsShifted k l l' where
  trim_eq := h.trans h'.symm
  parenDelta_eq := by
    rw [parenDelta_of_blank (trim_eq_nil_iff.mp h), parenDelta_of_blank (trim_eq_nil_iff.mp h')]
  indentOf_eq hne := absurd h' hne

namespace IsShifted

variable (h : IsShifted k l l')
include h

theorem isSkippable : isSkippable l = isSkippable l' := by
  simp only [Script.isSkippable, h.trim_eq]

theorem lt_indentOf_iff (hne : trim l' ≠ []) :
    n + k < Script.indentOf l ↔ n < Script.indentOf l' := by
  rw [h.indentOf_eq hne]
  omega

theorem indentOf_lt_iff (hne : trim l' ≠ []) :
    Script.indentOf l < n + k ↔ Script.indentOf l' < n := by
  rw [h.indentOf_eq hne]
  omega

theorem isInside : isInside (n + k) l = isInside n l' := by
  rw [Script.isInside, Script.isInside, h.isSkippable]
  cases hskip : Script.isSkippable l' with
  | true => rfl
  | false =>
    have hne := trim_ne_nil_of_statement hskip
    rw [Bool.false_or, Bool.false_or, decide_eq_decide, h.indentOf_eq hne]
    omega

theorem isUnderGuard : isUnderGuard (n + k) l = isUnderGuard n l' := by
  rw [Script.isUnderGuard, Script.isUnderGuard, h.trim_eq]
  by_cases hne : trim l' = []
  · rw [hne]
    rfl
  · congr 1
    exact decide_eq_decide.mpr (h.lt_indentOf_iff hne)

end IsShifted

/-! ### Lists of lines -/

section Rel

variable {α β : Type} {R : α → β → Prop} {x : Option α} {b : β}

theorem exists_of_rel_some (h : Option.Rel R x (some b)) : ∃ a, x = some a ∧ R a b := by
  cases h with
  | some hab => exact ⟨_, rfl, hab⟩

theorem eq_none_of_rel_none (h : Option.Rel R x (none : Option β)) : x = none := by
  cases h
  rfl

end Rel

/-- Lines that say the same as others, `k` blanks further to the left.  They may end in different
numbers of blank lines. -/
inductive Realigned (k : Nat) : List Text → List Text → Prop
  | blank {ls ls' : List Text} (h : ∀ l ∈ ls, trim l = []) (h' : ∀ l ∈ ls', trim l = []) :
    Realigned k ls ls'
  | line {l l' : Text} {ls ls' : List Text} (h : IsShifted k l l') (t : Realigned k ls ls') :
    Realigned k (l :: ls) (l' :: ls')

namespace Realigned

/-- Lines without blanks that all of them begin with. -/
theorem map_drop (h : ∀ l ∈ ls, trim l ≠ [] → k ≤ indentOf l) :
    Realigned k ls (ls.map (·.drop k)) := by
  induction ls with
  | nil => exact .blank (by simp) (by simp)
  | cons l ls ih =>
    obtain ⟨hl, hls⟩ := List.forall_mem_cons.mp h
    refine .line ?_ (ih hls)
    by_cases hblank : trim l = []
    · exact isShifted_of_blank hblank (trim_drop_of_blank hblank k)
    · have hshift := isShifted_pad_append k (l.drop k)
      rwa [pad_append_drop (hl hblank)] at hshift

/-- Lines with blank lines after them. -/
theorem append_blank {bs : List Text} (h : ∀ l ∈ bs, trim l = []) (ls : List Text) :
    Realigned 0 (ls ++ bs) ls := by
  induction ls with
  | nil => exact .blank h (by simp)
  | cons l ls ih => exact .line (isShifted_pad_append 0 l) ih

/-- Tests that agree on realigned lines and pass over blank ones drop the same number of them. -/
theorem dropWhile {p q : Text → Bool} (hblank : ∀ l, trim l = [] → p l = true ∧ q l = true)
    (hpq : ∀ l l', IsShifted k l l' → p l = q l') (h : Realigned k ls ls') :
    Realigned k (ls.dropWhile p) (ls'.dropWhile q) := by
  induction h with
  | blank hl hl' =>
    rw [List.dropWhile_eq_nil_iff.mpr fun l hm => (hblank l (hl l hm)).1,
      List.dropWhile_eq_nil_iff.mpr fun l hm => (hblank l (hl' l hm)).2]
    exact .blank (by simp) (by simp)
  | @line l l' ls ls' hline hrest ih =>
    rw [List.dropWhile_cons, List.dropWhile_cons, hpq l l' hline]
    split
    · exact ih
    · exact .line hline hrest

/-- Tests that agree on realigned lines keep the same number of them. -/
theorem takeWhile {p q : Text → Bool} (hpq : ∀ l l', IsShifted k l l' → p l = q l')
    (h : Realigned k ls ls') : Realigned k (ls.takeWhile p) (ls'.takeWhile q) := by
  induction h with
  | blank hl hl' =>
    exact .blank (fun l hm => hl l (List.takeWhile_subset _ hm))
      fun l hm => hl' l (List.takeWhile_subset _ hm)
  | @line l l' ls ls' hline hrest ih =>
    rw [List.takeWhile_cons, List.takeWhile_cons, hpq l l' hline]
    split
    · exact .line hline ih
    · exact .blank (by simp) (by simp)

theorem afterBlock (h : Realigned k ls ls') (n : Nat) :
    Realigned k (afterBlock (n + k) ls) (afterBlock n ls') :=
  h.dropWhile (fun l hl => by simp [isInside, isSkippable, hl]) fun _ _ hline => hline.isInside

/-- An else-branch begins in both lists or in none. -/
theorem elseBody? (h : Realigned k ls ls') (n : Nat) :
    Option.Rel (Realigned k) (elseBody? (n + k) ls) (elseBody? n ls') := by
  have hne : elseLine ≠ [] := by decide
  have hblank : ∀ {m : Nat} {ls : List Text}, (∀ l ∈ ls, trim l = []) →
      Script.elseBody? m ls = none := by
    intro m ls hls
    cases ls with
    | nil => rfl
    | cons l ls =>
      rw [Script.elseBody?, if_neg]
      rintro ⟨-, helse⟩
      exact hne (helse.symm.trans (hls l List.mem_cons_self))
  cases h with
  | blank hl hl' =>
    rw [hblank hl, hblank hl']
    exact .none
  | @line l l' ls ls' hline hrest =>
    rw [Script.elseBody?, Script.elseBody?, hline.trim_eq]
    by_cases helse : trim l' = elseLine
    · have hindent := hline.indentOf_eq (helse ▸ hne)
      rw [hindent]
      by_cases hn : Script.indentOf l' = n
      · rw [if_pos ⟨by omega, helse⟩, if_pos ⟨hn, helse⟩]
        exact .some hrest
      · rw [if_neg (by omega), if_neg (by omega)]
        exact .none
    · rw [if_neg (fun h => helse h.2), if_neg (fun h => helse h.2)]
      exact .none

/-- The name that a guard finds does not depend on blank lines and indentation. -/
theorem guardedName? (h : Realigned k ls ls') (flag : Text) :
    guardedName? flag ls = guardedName? flag ls' := by
  have hblank : ∀ {ls : List Text}, (∀ l ∈ ls, trim l = []) →
      Script.guardedName? flag ls = none := by
    intro ls hls
    rw [Script.guardedName?, List.find?_eq_none]
    intro t ht
    obtain ⟨l, hl, rfl⟩ := List.mem_map.mp ht
    simp [hls l hl]
  induction h with
  | blank hl hl' => rw [hblank hl, hblank hl']
  | line hline _ ih =>
    rw [Script.guardedName?, Script.guardedName?, List.map_cons, List.map_cons, hline.trim_eq,
      List.find?_cons, List.find?_cons]
    split
    · rfl
    · exact ih

/-- A guard guards the same step in both lists, or no step in either. -/
theorem once? (h : Realigned k ls ls') (n : Nat) (cond : Text) :
    Option.Rel (fun x y => x.1 = y.1 ∧ Realigned k x.2 y.2) (once? (n + k) cond ls)
      (once? n cond ls') := by
  have hguard : ∀ l l', IsShifted k l l' → isUnderGuard (n + k) l = isUnderGuard n l' :=
    fun _ _ hline => hline.isUnderGuard
  have hafter := h.dropWhile (fun l hl => by simp [isUnderGuard, hl]) hguard
  rw [Script.once?, Script.once?]
  cases Pattern.guardedFlag? cond with
  | none => exact .none
  | some flag =>
    simp only [Option.bind_eq_bind, Option.bind_some, (h.takeWhile hguard).guardedName? flag]
    cases Script.guardedName? flag (ls'.takeWhile (isUnderGuard n)) with
    | none => exact .none
    | some name => exact .some ⟨rfl, hafter⟩

theorem afterOpenCall (h : Realigned k ls ls') (n : Nat) (depth : Int) :
    Realigned k (afterOpenCall (n + k) depth ls) (afterOpenCall n depth ls') := by
  induction h generalizing depth with
  | blank hl hl' =>
    exact .blank (fun l hm => hl l ((afterOpenCall_suffix _ _ _).subset hm))
      fun l hm => hl' l ((afterOpenCall_suffix _ _ _).subset hm)
  | @line l l' ls ls' hline hrest ih =>
    have hstop : (decide (depth ≤ 0) || (!(trim l).isEmpty && decide (indentOf l < n + k))) =
        (decide (depth ≤ 0) || (!(trim l').isEmpty && decide (indentOf l' < n))) := by
      rw [hline.trim_eq]
      by_cases hne : trim l' = []
      · rw [hne]
        rfl
      · rw [decide_eq_decide.mpr (hline.indentOf_lt_iff hne)]
    rw [Script.afterOpenCall, Script.afterOpenCall, hstop]
    split
    · exact .line hline hrest
    · rw [hline.parenDelta_eq]
      exact ih _

theorem afterCall (h : Realigned k ls ls') (hdelta : parenDelta none l = parenDelta none l')
    (n : Nat) : Realigned k (afterCall (n + k) l ls) (afterCall n l' ls') := by
  rw [Script.afterCall, Script.afterCall, hdelta]
  exact h.afterOpenCall n _

end Realigned

/-! ### Steps -/

/-- Lines that hold no statement have no steps. -/
theorem steps_of_isSkippable (h : ∀ l ∈ ls, isSkippable l = true) : steps n ls = [] := by
  induction ls with
  | nil => rw [steps]
  | cons l ls ih =>
    obtain ⟨hl, hls⟩ := List.forall_mem_cons.mp h
    rw [steps, if_pos hl]
    exact ih hls

theorem steps_of_blank (h : ∀ l ∈ ls, trim l = []) : steps n ls = [] :=
  steps_of_isSkippable fun l hl => by simp [isSkippable, h l hl]

/-- What stands at the place of a line that is not blank. -/
theorem Realigned.exists_cons (h : Realigned k ls (l' :: ls')) (hne : trim l' ≠ []) :
    ∃ l rest, ls = l :: rest ∧ IsShifted k l l' ∧ Realigned k rest ls' := by
  cases h with
  | blank _ h' => exact absurd (h' l' List.mem_cons_self) hne
  | line hline hrest => exact ⟨_, _, rfl, hline, hrest⟩

theorem IsShifted.holdsStatement (h : IsShifted k l l') (hholds : HoldsStatement n l') :
    HoldsStatement (n + k) l := by
  have hne := trim_ne_nil_of_statement hholds.isSkippable
  exact ⟨h.isSkippable.trans hholds.isSkippable, by rw [h.indentOf_eq hne, hholds.indentOf],
    h.trim_eq ▸ hholds.ne_placeholder⟩

/-- A line that holds a statement has one at its place, and the same statement. -/
theorem Realigned.exists_holdsStatement (h : Realigned k ls (l' :: ls'))
    (hholds : HoldsStatement n l') :
    ∃ l rest, ls = l :: rest ∧ HoldsStatement (n + k) l ∧ trim l = trim l' ∧
      parenDelta none l = parenDelta none l' ∧ Realigned k rest ls' := by
  obtain ⟨l, rest, rfl, hline, hrest⟩ :=
    h.exists_cons (trim_ne_nil_of_statement hholds.isSkippable)
  exact ⟨l, rest, rfl, hline.holdsStatement hholds, hline.trim_eq, hline.parenDelta_eq, hrest⟩

/-- Nothing is read from blank lines. -/
theorem reads_of_blank (h : ∀ l ∈ ls, trim l = []) : Reads n ls [] :=
  steps_of_blank h ▸ reads_steps n ls

/-- Realigned lines are read by the same rules. -/
theorem Realigned.reads {ns : List Step} (h : Realigned k ls ls') (hread : Reads n ls' ns) :
    Reads (n + k) ls ns := by
  -- unless a line of the second list is blank, the first list has a line in the same place that is
  -- read in the same way
  induction hread generalizing ls with
  | nil n =>
    cases h with
    | blank hl _ => exact reads_of_blank hl
  | skip hskip hrest ih =>
    cases h with
    | blank hl hl' =>
      have hns := hrest.steps_eq
      rw [steps_of_blank fun l hm => hl' l (List.mem_cons_of_mem _ hm)] at hns
      rw [← hns]
      exact reads_of_blank hl
    | line hline hrest => exact .skip (hline.isSkippable.trans hskip) (ih hrest)
  | stop hskip hlt =>
    have hne := trim_ne_nil_of_statement hskip
    obtain ⟨l, ls, rfl, hline, -⟩ := h.exists_cons hne
    exact .stop (hline.isSkippable.trans hskip) ((hline.indentOf_lt_iff hne).mpr hlt)
  | pass hskip hle hpass _ ih =>
    have hne := trim_ne_nil_of_statement hskip
    obtain ⟨l, ls, rfl, hline, hrest⟩ := h.exists_cons hne
    have hle' := Nat.not_lt.mp (mt (hline.indentOf_lt_iff hne).mp (Nat.not_lt.mpr hle))
    exact .pass (hline.isSkippable.trans hskip) hle'
      (hpass.imp (hline.lt_indentOf_iff hne).mpr hline.trim_eq.trans) (ih hrest)
  | step hholds hs _ ih =>
    obtain ⟨l, ls, rfl, hholds', htrim, -, hrest⟩ := h.exists_holdsStatement hholds
    exact .step hholds' (htrim ▸ hs) (ih hrest)
  | @guard n line cond rest after s ns hholds hcond honce _ ih =>
    obtain ⟨l, ls, rfl, hholds', htrim, -, hrest⟩ := h.exists_holdsStatement hholds
    obtain ⟨⟨s', after'⟩, honce', rfl, hafter⟩ := exists_of_rel_some (honce ▸ hrest.once? n cond)
    exact .guard hholds' (htrim ▸ hcond) honce' (ih hafter)
  | @branch n line cond rest yes ns hholds hcond honce helse _ _ ihyes ih =>
    obtain ⟨l, ls, rfl, hholds', htrim, -, hrest⟩ := h.exists_holdsStatement hholds
    have honce' := eq_none_of_rel_none (honce ▸ hrest.once? n cond)
    have hmore := hrest.afterBlock (n + indentStep)
    have helse' := eq_none_of_rel_none (helse ▸ hmore.elseBody? n)
    have hyes := ihyes hrest
    have hns := ih hmore
    rw [Nat.add_right_comm] at helse' hyes hns
    exact .branch hholds' (htrim ▸ hcond) honce' helse' hyes hns
  | @branchElse n line cond rest body yes no ns hholds hcond honce helse _ _ _ ihyes ihno ih =>
    obtain ⟨l, ls, rfl, hholds', htrim, -, hrest⟩ := h.exists_holdsStatement hholds
    have honce' := eq_none_of_rel_none (honce ▸ hrest.once? n cond)
    obtain ⟨body', helse', hbody⟩ :=
      exists_of_rel_some (helse ▸ (hrest.afterBlock (n + indentStep)).elseBody? n)
    have hyes := ihyes hrest
    have hno := ihno hbody
    have hns := ih (hbody.afterBlock (n + indentStep))
    rw [Nat.add_right_comm] at helse' hyes hno hns
    exact .branchElse hholds' (htrim ▸ hcond) honce' helse' hyes hno hns
  | @loop n line item iter rest block ns hholds hloop _ _ ihbody ih =>
    obtain ⟨l, ls, rfl, hholds', htrim, -, hrest⟩ := h.exists_holdsStatement hholds
    have hbody := ihbody hrest
    have hns := ih (hrest.afterBlock (n + indentStep))
    rw [Nat.add_right_comm] at hbody hns
    exact .loop hholds' (htrim ▸ hloop) hbody hns
  | @storage n line rest ns hholds hstorage _ ih =>
    obtain ⟨l, ls, rfl, hholds', htrim, hdelta, hrest⟩ := h.exists_holdsStatement hholds
    exact .storage hholds' (htrim ▸ hstorage) (ih (hrest.afterCall hdelta n))

/-- **Realigned lines read as the same steps**, from blocks that are as far apart as the lines. -/
theorem Realigned.steps (h : Realigned k ls ls') : steps (n + k) ls = steps n ls' :=
  (h.reads (reads_steps n ls')).steps_eq

/-- Lines that all begin with blanks read as the lines without these blanks. -/
theorem steps_map_drop (n : Nat) (h : ∀ l ∈ ls, trim l ≠ [] → k ≤ indentOf l) :
    steps n (ls.map (·.drop k)) = steps (n + k) ls :=
  (Realigned.map_drop h).steps.symm

/-- Blank lines at the end change nothing. -/
theorem steps_append_blank {bs : List Text} (h : ∀ l ∈ bs, trim l = []) (n : Nat)
    (ls : List Text) : steps n (ls ++ bs) = steps n ls :=
  (Realigned.append_blank h ls).steps

theorem baseIndent_append_blank {bs : List Text} (h : ∀ l ∈ bs, trim l = []) (ls : List Text) :
    baseIndent (ls ++ bs) = baseIndent ls := by
  have hnone : bs.filter (!isSkippable ·) = [] :=
    List.filter_eq_nil_iff.mpr fun l hl => by simp [isSkippable, h l hl]
  rw [baseIndent, baseIndent, List.filter_append, hnone, List.append_nil]

end Script

namespace Extract

variable {k w : Nat} {l : Text} {ls : List Text}

/-! ### The indentation that lines share -/

/-- Blank lines share any indentation. -/
theorem sharedIndent_append_blank {bs : List Text} (h : ∀ l ∈ bs, trim l = [])
    (ls : List Text) : sharedIndent (ls ++ bs) = sharedIndent ls := by
  have hnone : bs.filter (!isBlankText ·) = [] :=
    List.filter_eq_nil_iff.mpr fun l hl => by simp [isBlankText_iff_trim.mpr (h l hl)]
  rw [sharedIndent, sharedIndent, List.filter_append, hnone, List.append_nil]

theorem isBlankText_drop (h : isBlankText l = true) (k : Nat) : isBlankText (l.drop k) = true :=
  isBlankText_iff_trim.mpr (Script.trim_drop_of_blank (isBlankText_iff_trim.mp h) k)

theorem indentOf_drop (h : w ≤ Script.indentOf l) : indentOf l = w + indentOf (l.drop w) := by
  conv_lhs => rw [← Script.pad_append_drop h, indentOf_pad_append]

theorem le_indentOf (h : w ≤ Script.indentOf l) : w ≤ indentOf l := by
  rw [indentOf_drop h]
  exact Nat.le_add_right _ _

theorem isBlankText_drop_eq (h : w ≤ Script.indentOf l) :
    isBlankText (l.drop w) = isBlankText l := by
  conv_rhs => rw [← Script.pad_append_drop h, isBlankText_pad_append]

/-- Blanks that all lines begin with are a part of the indentation that they share. -/
theorem sharedIndent_eq_add (h : ∀ l ∈ ls, isBlankText l = false → w ≤ Script.indentOf l)
    (hne : ∃ l ∈ ls, isBlankText l = false) :
    sharedIndent ls = w + sharedIndent (ls.map (·.drop w)) := by
  obtain ⟨l, hl, hvisible, hindent, hle⟩ := exists_sharedIndent hne
  rw [← hindent, indentOf_drop (h l hl hvisible), Nat.add_left_cancel_iff]
  refine (sharedIndent_eq_of (List.mem_map_of_mem hl) ?_ ?_).symm
  · rw [isBlankText_drop_eq (h l hl hvisible), hvisible]
  · intro m hm hm'
    obtain ⟨x, hx, rfl⟩ := List.mem_map.mp hm
    have hx' : isBlankText x = false := by
      rw [Bool.eq_false_iff] at hm' ⊢
      exact fun hblank => hm' (isBlankText_drop hblank w)
    have hlx := hle x hx hx'
    rw [indentOf_drop (h l hl hvisible), indentOf_drop (h x hx hx')] at hlx
    exact Nat.add_le_add_iff_left.mp hlx

/-- Such blanks are taken away in any case. -/
theorem dedent_map_drop (h : ∀ l ∈ ls, isBlankText l = false → w ≤ Script.indentOf l)
    (hne : ∃ l ∈ ls, isBlankText l = false) : dedent (ls.map (·.drop w)) = dedent ls := by
  rw [dedent, dedent, sharedIndent_eq_add h hne, List.map_map]
  simp only [Function.comp_def, List.drop_drop]

/-- Indentation that is taken away from a line was blank. -/
theorem trim_drop (h : k ≤ indentOf l) : trim (l.drop k) = trim l := by
  have hblank : ∀ c ∈ l.take k, isBlank c = true := fun c hc =>
    isBlank_of_isIndent (of_mem_take h hc)
  conv_rhs => rw [← List.take_append_drop k l]
  exact (trim_blank_append hblank _).symm

/-- A line is taken for the same once the shared indentation is gone. -/
theorem isSkippable_drop_sharedIndent (hl : l ∈ ls) :
    Script.isSkippable (l.drop (sharedIndent ls)) = Script.isSkippable l := by
  have htrim : trim (l.drop (sharedIndent ls)) = trim l := by
    cases hblank : isBlankText l with
    | true =>
      rw [isBlankText_iff_trim.mp hblank, isBlankText_iff_trim.mp (isBlankText_drop hblank _)]
    | false =>
      obtain ⟨m, -, -, hm, hle⟩ := exists_sharedIndent ⟨l, hl, hblank⟩
      exact trim_drop (hm ▸ hle l hl hblank)
  rw [Script.isSkippable, Script.isSkippable, htrim]

end Extract

namespace Script

variable {ls bs : List Text}

/-- Lines whose least indentation, in blanks and tabs, is the least indentation of a statement, in
blanks, with which all of them begin; nothing is asked of lines without a statement. -/
def IsGrounded (lines : List Text) : Prop :=
  (∃ l ∈ lines, isSkippable l = false) →
    Extract.sharedIndent lines = baseIndent lines ∧
      ∀ l ∈ lines, isBlankText l = false → baseIndent lines ≤ indentOf l

/-- **Lines without the indentation that they share** read as the same steps. -/
theorem steps_dedent (h : IsGrounded ls) (hstatement : ∃ l ∈ ls, isSkippable l = false) :
    steps 0 (Extract.dedent ls) = steps (baseIndent ls) ls := by
  obtain ⟨hshared, hindent⟩ := h hstatement
  rw [Extract.dedent, hshared, steps_map_drop, Nat.zero_add]
  intro l hl hne
  exact hindent l hl (Bool.eq_false_iff.mpr fun hblank => hne (isBlankText_iff_trim.mp hblank))

/-- Blank lines at the end are not in the way. -/
theorem steps_dedent_append_blank (h : ∀ l ∈ bs, trim l = []) (ls : List Text) :
    steps 0 (Extract.dedent (ls ++ bs)) = steps 0 (Extract.dedent ls) := by
  rw [Extract.dedent, Extract.sharedIndent_append_blank h, List.map_append, steps_append_blank,
    Extract.dedent]
  intro l hl
  obtain ⟨b, hb, rfl⟩ := List.mem_map.mp hl
  exact trim_drop_of_blank (h b hb) _

end Script

end InterviewPlan
