import InterviewPlan.Proofs.Script.CleanBlock
import InterviewPlan.Proofs.Script.Names

/-!
# Structural lines

Two of the lines that are written for a plan hold no step: the placeholder, which stands for an
empty branch or loop, and the header of an else-branch.  Reading the lines of clean steps, neither
of them becomes a name, whatever order the steps stand in.  Conditions may guard here.  A guard
takes its name from the branch and does not know an else-branch, which is where a structural line
can come through; so can it where a line is cut in two or a call does not end.

## Main definitions

* `Script.IsStructural`, `Script.NamesSteps`: structural lines, and steps without them among their
  names
* `Step.CleanOrGuard`: a step with clean fields, whose condition may guard
* `Step.Contained`: a step whose lines are taken for no structural line nor hide one

## Main results

* `Script.namesSteps_emitStep`: the lines of one step name no structural line
* `Script.names_decompile_unlines_emit`: nor do the lines of a plan
* `Script.namesStructural_emit`: which needs that the steps are contained
-/

namespace InterviewPlan

open Text Script Statement Pattern

namespace Script

/-- A line that holds no step: the placeholder, or the header of an else-branch. -/
def IsStructural (t : Text) : Prop := t = placeholder ∨ t = elseLine

instance (t : Text) : Decidable (IsStructural t) :=
  inferInstanceAs (Decidable (t = placeholder ∨ t = elseLine))

/-- Steps that have no structural line among their names. -/
def NamesSteps (ns : List Step) : Prop := ∀ t ∈ names ns, ¬ IsStructural t

end Script

/-- Whether the written entries leave no parenthesis open: they close more than they have opened
somewhere, or all of them at the end. -/
def Snapshot.Closes (args : Snapshot) : Prop :=
  (∃ k, ((args.entryTexts.take k).map (parenDelta none)).sum < 0) ∨
    (args.entryTexts.map (parenDelta none)).sum = 0

namespace Step

/-- A step with clean fields, except that any condition that stands on a line will do. -/
def CleanOrGuard : Step → Prop
  | branch cond _ _ => IsInline cond
  | s => s.Clean

/-- A step that runs once is not named as a structural line. -/
def NamedApart : Step → Prop
  | once name _ => ¬ IsStructural name
  | _ => True

/-- A step whose lines are not taken for structural lines and hide none.  Texts in quotation marks
have no line feed, and the call of a snapshot ends by itself.  A condition that guards by a flag
finds no structural line to guard, and if it finds a name, there is no else-branch. -/
def Contained : Step → Prop
  | enter name => '\n' ∉ name
  | snapshot args => (∀ entry ∈ args.entryTexts, '\n' ∉ entry) ∧ args.Closes
  | branch cond yes no =>
    ∀ flag ∈ guardedFlag? cond, ∀ name ∈ guardedName? flag (orPlaceholder 0 (emit 0 yes)),
      ¬ IsStructural name ∧ no.getD [] = []
  | _ => True

/-- A step that is written as a legible one begins, although it may not be legible itself: its
header is that of a branch, or its call that of a snapshot without data. -/
theorem CleanOrGuard.exists_legible {s : Step} (hclean : s.CleanOrGuard)
    (hcontained : s.Contained) : ∃ r : Step, r.Legible ∧ headline r = headline s := by
  have hself : s.Legible → ∃ r : Step, r.Legible ∧ headline r = headline s := fun h => ⟨s, h, rfl⟩
  cases s with
  | branch cond yes no => exact hself ⟨clause?_space hclean, trivial⟩
  | once name flag =>
    have hflag : IsInline (effectiveFlag name flag) := isInline_effectiveFlag hclean.2
    have hcond := isInline_guardCondition hflag
    exact ⟨.branch (guardCondition (effectiveFlag name flag)) [] none,
      ⟨clause?_space hcond, trivial⟩, rfl⟩
  | snapshot args => exact ⟨.snapshot .plain, legible_snapshot_plain, rfl⟩
  | enter name => exact hself ⟨trivial, hcontained⟩
  | ask var => exact hself (legible_of_clean (s := .ask var) hclean ⟨trivial, trivial⟩)
  | progress value => exact hself ⟨trivial, trivial⟩
  | gather list => exact hself ⟨hclean, trivial⟩
  | loop item iter body =>
    exact hself (legible_of_clean (s := .loop item iter body) hclean ⟨trivial, trivial⟩)

theorem Clean.cleanOrGuard {s : Step} (h : s.Clean) : s.CleanOrGuard := by
  cases s with
  | branch cond yes no => exact h.1
  | _ => exact h

/-- A clean step that is written faithfully is contained: its condition does not guard. -/
theorem contained_of_clean {s : Step} (hclean : s.Clean) (hfaithful : s.Faithful) :
    s.Contained := by
  cases s with
  | branch cond yes no =>
    intro flag hflag
    rw [hclean.2] at hflag
    cases hflag
  | enter name => exact hfaithful.keepsLines
  | snapshot args => exact ⟨hfaithful.keepsLines, Or.inr hfaithful.inLines.2⟩
  | _ => trivial

instance (s : Step) : Decidable s.NamedApart :=
  match s with
  | once name _ => inferInstanceAs (Decidable ¬ IsStructural name)
  | ask _ | enter _ | progress _ | gather _ | branch .. | loop .. | snapshot _ => .isTrue trivial

end Step

namespace Script

variable {n : Nat} {s : Step} {ns : List Step} {line cond item iter : Text}
  {ls body rest after more : List Text}

/-! ### Names -/

theorem namesSteps_nil : NamesSteps [] := List.forall_mem_nil _

theorem namesSteps_cons :
    NamesSteps (s :: ns) ↔ (∀ t ∈ s.names, ¬ IsStructural t) ∧ NamesSteps ns := by
  rw [NamesSteps, names, List.forall_mem_append]
  rfl

/-- The line that sets a flag is not structural. -/
theorem not_isStructural_flagLine (flag : Text) : ¬ IsStructural (trim (flagLine flag)) := by
  have hassign : '=' ∈ trim (flagLine flag) :=
    mem_trim_of_mem (by simp [flagLine]) (by decide)
  rintro (h | h) <;> exact absurd (h ▸ hassign) (by decide)

/-- The first line of a clean step holds a statement. -/
theorem holdsStatement_of_clean (n : Nat) (hclean : s.CleanOrGuard) (hcontained : s.Contained) :
    HoldsStatement n (pad n ++ headline s) ∧ trim (pad n ++ headline s) = headline s := by
  obtain ⟨r, hlegible, hhead⟩ := hclean.exists_legible hcontained
  rw [← hhead]
  exact ⟨holdsStatement_headline n hlegible.readable, trim_pad_headline n hlegible.readable⟩

/-- The first line of a clean step is not structural. -/
theorem not_isStructural_headline (hclean : s.CleanOrGuard) : ¬ IsStructural (headline s) := by
  intro h
  have hask := eq_ask_of_headline h rfl
  rw [hask] at hclean
  exact h.elim hclean.2.1 hclean.2.2.1

/-! ### Calls that end -/

/-- A call ends among its own lines if their parentheses are closed at some place. -/
theorem afterOpenCall_of_closed {depth : Int} (hls : ∀ l ∈ ls, n ≤ indentOf l)
    (hclosed : ∃ k, depth + ((ls.take k).map (parenDelta none)).sum ≤ 0) :
    ∃ left, left <:+ ls ∧ afterOpenCall n depth (ls ++ more) = left ++ more := by
  induction ls generalizing depth with
  | nil =>
    obtain ⟨k, hk⟩ := hclosed
    rw [List.take_nil, List.map_nil, List.sum_nil, Int.add_zero] at hk
    exact ⟨[], List.suffix_rfl, afterOpenCall_of_nonpos hk more⟩
  | cons l ls ih =>
    by_cases hdepth : depth ≤ 0
    · exact ⟨l :: ls, List.suffix_rfl, afterOpenCall_of_nonpos hdepth _⟩
    obtain ⟨k, hk⟩ := hclosed
    obtain ⟨hl, hls⟩ := List.forall_mem_cons.mp hls
    cases k with
    | zero => exact absurd (by simpa using hk) hdepth
    | succ k =>
      rw [List.take_succ_cons, List.map_cons, List.sum_cons, ← Int.add_assoc] at hk
      obtain ⟨left, hleft, heq⟩ := ih hls ⟨k, hk⟩
      refine ⟨left, hleft.trans (List.suffix_cons l ls), ?_⟩
      rw [List.cons_append, afterOpenCall, if_neg (by simp; omega), heq]

/-- The parentheses of a snapshot are closed at some place if its entries leave none open. -/
theorem exists_closed_snapshot {args : Snapshot} (h : args.Closes) (n : Nat) :
    ∃ k, 1 + (((snapshotBody n args ++ [pad n ++ [')']]).take k).map
      (parenDelta none)).sum ≤ 0 := by
  have hclosing : parenDelta none (pad n ++ [')']) = -1 := by
    rw [parenDelta_pad_append]
    rfl
  simp only [List.map_take, List.map_append, List.map_singleton, hclosing,
    map_parenDelta_snapshotBody]
  split
  · exact ⟨3, by decide⟩
  rcases h with ⟨k, hk⟩ | hzero
  · have hlast : ∀ j, (([0, -1] : List Int).take j).sum ≤ 0 := fun j => by
      rcases j with _ | _ | j <;> simp
    refine ⟨k + 2, ?_⟩
    rw [List.append_assoc, List.cons_append, List.cons_append, List.take_succ_cons,
      List.take_succ_cons, List.sum_cons, List.sum_cons, List.take_append, List.sum_append]
    rw [List.map_take] at hk
    have := hlast (k - (args.entryTexts.map (parenDelta none)).length)
    simp only [List.cons_append, List.nil_append]
    omega
  · refine ⟨args.entryTexts.length + 4, ?_⟩
    rw [List.take_of_length_le (by simp)]
    simp [hzero]

/-! ### Reading without structural lines -/

/-- Lines that are indented deeper than the block and belong to no step are passed over. -/
theorem steps_append_of_deeper (hls : ∀ l ∈ ls, n < indentOf l) (more : List Text) :
    steps n (ls ++ more) = steps n more := by
  induction ls with
  | nil => rfl
  | cons l ls ih =>
    obtain ⟨hl, hls⟩ := List.forall_mem_cons.mp hls
    rw [List.cons_append, steps_cons_of_isUnderGuard (by simp [isUnderGuard, hl]), ih hls]

/-- A line that is a step by itself is not named otherwise. -/
theorem namesSteps_of_step (hline : HoldsStatement n line) (h : ofText (trim line) = .step s)
    (hstructural : ¬ IsStructural (trim line)) (hrest : NamesSteps (steps n rest)) :
    NamesSteps (steps n (line :: rest)) := by
  rw [steps_of_step hline h]
  refine namesSteps_cons.mpr ⟨fun t ht => ?_, hrest⟩
  rwa [List.mem_singleton.mp ((names_of_ofText h).subset ht)]

/-- Below the header of a condition stands a body, which is indented, and then other lines.  It is
the body of a guard, or a branch and perhaps an else-branch after it. -/
theorem namesSteps_of_condition (hline : HoldsStatement n line)
    (h : ofText (trim line) = .condition cond) (hbody : ∀ l ∈ body, n + 2 ≤ indentOf l)
    (hmore : EndsBlock (n + 1) more)
    (hguard : ∀ flag ∈ guardedFlag? cond, ∀ name ∈ guardedName? flag body,
      ¬ IsStructural name ∧ NamesSteps (steps n more))
    (hyes : NamesSteps (steps (n + 2) (body ++ more)))
    (helse : elseBody? n more = none ∧ NamesSteps (steps n more) ∨
      ∃ block, elseBody? n more = some block ∧ NamesSteps (steps (n + 2) block) ∧
        NamesSteps (steps n (afterBlock (n + 2) block))) :
    NamesSteps (steps n (line :: (body ++ more))) := by
  obtain ⟨htake, hdrop⟩ := span_isUnderGuard (fun l hl => by have := hbody l hl; omega) hmore
  have hafter : afterBlock (n + 2) (body ++ more) = more :=
    afterBlock_append hbody (hmore.mono (by omega))
  cases honce : once? n cond (body ++ more) with
  | some found =>
    obtain ⟨s, after⟩ := found
    rw [steps_of_guard hline h honce]
    obtain ⟨flag, name, hflag, hname, rfl, rfl⟩ := once?_eq_some honce
    rw [htake] at hname
    obtain ⟨hstructural, hrest⟩ := hguard flag hflag name hname
    rw [hdrop]
    exact namesSteps_cons.mpr ⟨List.forall_mem_singleton.mpr hstructural, hrest⟩
  | none =>
    rw [steps_of_condition hline h honce, hafter]
    rcases helse with ⟨hnone, hrest⟩ | ⟨block, hsome, hno, hrest⟩
    · rw [hnone]
      exact namesSteps_cons.mpr ⟨hyes, hrest⟩
    · rw [hsome]
      exact namesSteps_cons.mpr ⟨List.forall_mem_append.mpr ⟨hyes, hno⟩, hrest⟩

/-- The lines of a step that runs once name no structural line, even if they are read as those of a
branch. -/
theorem namesSteps_emitStep_once {name : Text} {flag : Option Text}
    (hline : HoldsStatement n (pad n ++ headline (.once name flag)))
    (hread : ofText (trim (pad n ++ headline (.once name flag))) = .condition cond)
    (hname : trim name = name) (hnamed : ¬ IsStructural name) (hmore : EndsBlock (n + 1) more)
    (hfirst : elseBody? n more = none) (hrest : NamesSteps (steps n more)) :
    NamesSteps (steps n (emitStep n (.once name flag) ++ more)) := by
  rw [emitStep_once, List.cons_append]
  generalize Step.effectiveFlag name flag = f
  have hbody : ∀ l ∈ [pad (n + 2) ++ name, pad (n + 2) ++ flagLine f],
      n + 2 ≤ indentOf l ∧ ¬ IsStructural (trim l) := by
    intro l hl
    simp only [List.mem_cons, List.not_mem_nil, or_false] at hl
    rcases hl with rfl | rfl
    · rw [trim_pad_append, hname]
      exact ⟨le_indentOf_pad_append _ name, hnamed⟩
    · rw [trim_pad_append]
      exact ⟨le_indentOf_pad_append _ (flagLine f), not_isStructural_flagLine f⟩
  generalize [pad (n + 2) ++ name, pad (n + 2) ++ flagLine f] = body at hbody
  have hindent : ∀ l ∈ body, n + 2 ≤ indentOf l := fun l hl => (hbody l hl).1
  have htexts : ∀ t ∈ statementTexts body, ¬ IsStructural t := by
    intro t ht
    obtain ⟨l, hl, rfl⟩ := List.mem_map.mp (List.mem_of_mem_filter ht)
    exact (hbody l hl).2
  -- the flag that is read may not be the one that was written, so all flags are allowed for
  refine namesSteps_of_condition hline hread hindent hmore ?_ ?_ (Or.inl ⟨hfirst, hrest⟩)
  · intro _ _ found hfound
    exact ⟨htexts found (mem_statementTexts_of_guardedName? hfound), hrest⟩
  · intro t ht
    have hsub := (reads_steps (n + 2) (body ++ more)).names_sublist.subset ht
    rw [blockPart, takeWhile_isInside_append hindent (hmore.mono (by omega))] at hsub
    exact htexts t hsub

/-- The lines of a branch name no structural line.  Its condition may guard by a flag: then there is
either no else-branch or no name to guard. -/
theorem namesSteps_emitStep_branch {yes : List Step} {no : Option (List Step)}
    (hline : HoldsStatement n (pad n ++ headline (.branch cond yes no)))
    (hread : ofText (trim (pad n ++ headline (.branch cond yes no))) = .condition cond)
    (hcontained : (Step.branch cond yes no).Contained)
    (hbelow : ∀ block ∈ (Step.branch cond yes no).blocks, ∀ {n : Nat} {after : List Text},
      EndsBlock n after → NamesSteps (steps n (emit n block ++ after)))
    (hmore : EndsBlock (n + 1) more) (hfirst : elseBody? n more = none)
    (hrest : NamesSteps (steps n more)) :
    NamesSteps (steps n (emitStep n (.branch cond yes no) ++ more)) := by
  have helse : EndsBlock (n + 1) (elseLines n no ++ more) := endsBlock_elseLines hmore
  have hyes : NamesSteps (steps (n + 2)
      (orPlaceholder (n + 2) (emit (n + 2) yes) ++ (elseLines n no ++ more))) := by
    rw [steps_orPlaceholder]
    exact hbelow yes (by simp) (helse.mono (Nat.le_succ _))
  rw [emitStep_branch, List.cons_append, List.append_assoc]
  refine namesSteps_of_condition hline hread (fun l => le_indentOf_of_mem_orPlaceholder) helse
    ?_ hyes ?_
  · intro flag hflag name hname
    rw [guardedName?_emit] at hname
    obtain ⟨hname, hno⟩ := hcontained flag hflag name hname
    rw [elseLines_of_getD hno]
    exact ⟨hname, hrest⟩
  · by_cases hno : no.getD [] = []
    · rw [elseLines_of_getD hno]
      exact Or.inl ⟨hfirst, hrest⟩
    obtain ⟨block, rfl⟩ : ∃ block, no = some block := Option.ne_none_iff_exists'.mp fun h =>
      hno (by rw [h]; rfl)
    have hpassed := afterBlock_emit_append block (hmore.mono (Nat.le_succ (n + 1)))
    rw [Option.getD_some] at hno
    refine Or.inr ⟨_, elseBody?_elseLines hno more, ?_, ?_⟩
    · exact hbelow block (by simp) (hmore.mono (Nat.le_succ _))
    · rw [hpassed]
      exact hrest

/-- The lines of a snapshot name no structural line, wherever its call ends among them. -/
theorem namesSteps_emitStep_snapshot {args : Snapshot} (hcloses : args.Closes)
    (hline : HoldsStatement n (pad n ++ headline (.snapshot args)))
    (hread : trim (pad n ++ headline (.snapshot args)) = snapshotOpening)
    (hrest : NamesSteps (steps n more)) :
    NamesSteps (steps n (emitStep n (.snapshot args) ++ more)) := by
  have hbody : ∀ l ∈ snapshotBody n args, n < indentOf l := fun _ => lt_indentOf_of_mem_snapshotBody
  have hindent : ∀ l ∈ snapshotBody n args ++ [pad n ++ [')']], n ≤ indentOf l := by
    refine List.forall_mem_append.mpr ⟨fun l hl => (hbody l hl).le, ?_⟩
    exact List.forall_mem_singleton.mpr (le_indentOf_pad_append n [')'])
  have hopening : parenDelta none (pad n ++ headline (.snapshot args)) = 1 := by
    rw [parenDelta_pad_append]
    rfl
  obtain ⟨left, hleft, hafter⟩ := afterOpenCall_of_closed hindent (exists_closed_snapshot hcloses n)
  rw [emitStep_snapshot, List.cons_append, steps_of_storage hline (congrArg ofText hread),
    afterCall, hopening, hafter]
  refine namesSteps_cons.mpr ⟨List.forall_mem_nil _, ?_⟩
  rcases List.suffix_concat_iff.mp hleft with rfl | ⟨left, rfl, hsuffix⟩
  · exact hrest
  have hclosing : HoldsStatement n (pad n ++ [')']) :=
    holdsStatement_headline n (s := .ask [')']) ⟨by decide, rfl, by decide, rfl⟩
  have htrim : trim (pad n ++ [')']) = [')'] := trim_pad_append n [')']
  rw [List.append_assoc, steps_append_of_deeper fun l hl => hbody l (hsuffix.mem hl)]
  refine namesSteps_of_step (s := .ask [')']) hclosing ?_ ?_ hrest
  · rw [htrim]
    rfl
  · rw [htrim]
    decide

/-- **The lines of a step name no structural line** if those of the blocks below it do not, whatever
lines follow. -/
theorem namesSteps_emitStep (hclean : s.CleanOrGuard) (hnamed : s.NamedApart)
    (hcontained : s.Contained)
    (hbelow : ∀ block ∈ s.blocks, ∀ {n : Nat} {after : List Text}, EndsBlock n after →
      NamesSteps (steps n (emit n block ++ after)))
    (hmore : EndsBlock (n + 1) more) (hfirst : elseBody? n more = none)
    (hrest : NamesSteps (steps n more)) : NamesSteps (steps n (emitStep n s ++ more)) := by
  obtain ⟨hline, htrim⟩ := holdsStatement_of_clean n hclean hcontained
  have hstructural : ¬ IsStructural (trim (pad n ++ headline s)) := by
    rw [htrim]
    exact not_isStructural_headline hclean
  have hread := congrArg ofText htrim
  have hsingle : ∀ r, ofText (headline s) = .step r →
      NamesSteps (steps n ([pad n ++ headline s] ++ more)) :=
    fun r h => namesSteps_of_step hline (hread.trans h) hstructural hrest
  cases s with
  | ask var =>
    rw [emitStep_ask]
    exact hsingle _ (Step.ofText_of_clean_ask hclean)
  | enter name =>
    rw [emitStep_enter]
    exact hsingle _ (ofText_enter name)
  | progress value =>
    rw [emitStep_progress]
    exact hsingle _ (ofText_progress value)
  | gather list =>
    rw [emitStep_gather]
    exact hsingle _ (ofText_gather hclean.1)
  | branch cond yes no =>
    exact namesSteps_emitStep_branch hline (hread.trans (ofText_condition (clause?_space hclean)))
      hcontained hbelow hmore hfirst hrest
  | loop item iter body =>
    have hloop : Step.Readable (.loop item iter body) :=
      Step.readable_of_clean (s := .loop item iter body) hclean trivial
    have hbody : NamesSteps
        (steps (n + 2) (orPlaceholder (n + 2) (emit (n + 2) body) ++ more)) := by
      rw [steps_orPlaceholder]
      exact hbelow body (by simp) (hmore.mono (Nat.le_succ _))
    have hpassed := afterBlock_orPlaceholder_append body (hmore.mono (Nat.le_succ (n + 1)))
    rw [emitStep_loop, List.cons_append,
      steps_of_repetition hline (hread.trans (ofText_repetition hloop)), hpassed]
    exact namesSteps_cons.mpr ⟨hbody, hrest⟩
  | once name flag =>
    have hcond : IsInline (guardCondition (Step.effectiveFlag name flag)) :=
      isInline_guardCondition (Step.isInline_effectiveFlag hclean.2)
    exact namesSteps_emitStep_once hline (hread.trans (ofText_condition (clause?_space hcond)))
      hclean.1.2.1 hnamed hmore hfirst hrest
  | snapshot args => exact namesSteps_emitStep_snapshot hcontained.2 hline htrim hrest

/-- **The lines of steps name no structural line**, up to the line that ends the block. -/
theorem namesSteps_emit
    (h : Step.Throughout (fun s _ => (s.CleanOrGuard ∧ s.NamedApart) ∧ s.Contained) ns)
    (hafter : EndsBlock n after) : NamesSteps (steps n (emit n ns ++ after)) := by
  induction h generalizing n after with
  | nil =>
    rw [emit, List.nil_append, steps_of_endsBlock hafter]
    exact namesSteps_nil
  | @cons s rest head _ tail ihbelow ihtail =>
    obtain ⟨⟨hclean, hnamed⟩, hcontained⟩ := head
    have hnext : ∀ next ∈ rest.head?, HoldsStatement n (pad n ++ headline next) ∧
        trim (pad n ++ headline next) ≠ elseLine := by
      intro next hmem
      obtain ⟨_, ⟨hclean, -⟩, hcontained⟩ := tail.exists_of_mem_head? hmem
      obtain ⟨hline, htrim⟩ := holdsStatement_of_clean n hclean hcontained
      rw [htrim]
      exact ⟨hline, fun helse => not_isStructural_headline hclean (Or.inr helse)⟩
    have hmore : EndsBlock (n + 1) (emit n rest ++ after) :=
      endsBlock_emit_append (fun next hmem => (hnext next hmem).1) hafter
    have hfirst : elseBody? n (emit n rest ++ after) = none :=
      elseBody?_emit_append (fun next hmem => (hnext next hmem).2) hafter
    rw [emit, List.append_assoc]
    exact namesSteps_emitStep hclean hnamed hcontained ihbelow hmore hfirst (ihtail hafter)

/-! ### Plans -/

/-- The lines of clean steps are lines of their own. -/
theorem isLine_emit_of_clean
    (h : Step.Throughout (fun s _ => s.CleanOrGuard ∧ s.Contained) ns) {l : Text}
    (hl : l ∈ emit n ns) : IsLine l := by
  refine forall_mem_emit (fun n _ ht => ht.pad n) (isLine_of_isInline isInline_placeholder)
    (isLine_of_isInline isInline_elseLine) (h.mono ?_) l hl
  rintro s - ⟨hclean, hcontained⟩
  obtain ⟨r, hlegible, hhead⟩ := hclean.exists_legible hcontained
  refine isLine_ownLines_of (hhead ▸ isLine_of_isInline (isInline_headline hlegible)) ?_ ?_
  · rintro name flag rfl
    exact ⟨hclean.1, (Step.isInline_effectiveFlag hclean.2).2.2⟩
  · rintro args rfl
    exact hcontained.1

/-- **Structural lines never become steps**: when the lines of clean and contained steps are read,
at whatever indentation they have been written, no name is the placeholder or the header of an
else-branch. -/
theorem names_decompile_unlines_emit
    (hclean : Step.Throughout (fun s _ => s.CleanOrGuard ∧ s.NamedApart) ns)
    (hcontained : Step.Throughout (fun s _ => s.Contained) ns) (n : Nat) :
    ∀ t ∈ names (decompile (unlines (emit n ns))), ¬ IsStructural t := by
  have hboth := hclean.and hcontained
  have hlines : Text.lines (unlines (emit n ns)) = emit n ns := by
    have hline : ∀ l ∈ emit n ns, IsLine l := fun l =>
      isLine_emit_of_clean (hboth.mono fun _ _ h => And.intro h.1.1 h.2)
    exact lines_unlines (fun l hl => (hline l hl).1) fun l hl => (hline l hl).2
  have hsteps := namesSteps_emit hboth (endsBlock_nil n)
  rw [List.append_nil] at hsteps
  rw [decompile_eq_steps, hlines]
  by_cases hne : ns = []
  · rw [hne, emit, steps]
    exact namesSteps_nil
  have hhead : ∀ s ∈ ns.head?, HoldsStatement n (pad n ++ headline s) := by
    intro s hs
    obtain ⟨_, ⟨hclean, -⟩, hcontained⟩ := hboth.exists_of_mem_head? hs
    exact (holdsStatement_of_clean n hclean hcontained).1
  rwa [baseIndent_emit hhead hne]

/-- A condition that guards by a flag. -/
def sampleGuard : Text := "not defined('f') or not f".toList

/-- Steps of every kind after two whose conditions guard: the first one finds a name in its branch,
and the other one finds none, so that it may have an else-branch. -/
def guardedSteps : List Step :=
  .branch sampleGuard [.ask "x".toList] none ::
    .branch sampleGuard [.ask "f = True".toList] (some [.ask "x".toList]) :: samplePlan.steps

/-- What holds of all steps if it holds of those in front and of all others. -/
theorem throughout_guardedSteps {p : Step → Prop}
    (hfirst : p (.branch sampleGuard [.ask "x".toList] none))
    (hsecond : p (.branch sampleGuard [.ask "f = True".toList] (some [.ask "x".toList])))
    (hname : p (.ask "x".toList)) (hassign : p (.ask "f = True".toList))
    (hsample : Step.Throughout (fun s _ => p s) samplePlan.steps) :
    Step.Throughout (fun s _ => p s) guardedSteps := by
  have hask : ∀ var, p (.ask var) → Step.Throughout (fun s _ => p s) [.ask var] :=
    fun _ h => .leaf h rfl .nil
  refine .cons hfirst ?_ (.cons hsecond ?_ hsample)
  · exact List.forall_mem_singleton.mpr (hask _ hname)
  · exact List.forall_mem_cons.mpr ⟨hask _ hassign, List.forall_mem_singleton.mpr (hask _ hname)⟩

/-- No structural line is among the names that are read from their lines. -/
theorem names_decompile_guardedSteps :
    Step.Throughout (fun s _ => s.CleanOrGuard ∧ s.NamedApart) guardedSteps ∧
      Step.Throughout (fun s _ => s.Contained) guardedSteps ∧
      ∀ t ∈ names (decompile (unlines (emit 4 guardedSteps))), ¬ IsStructural t := by
  have hask : ∀ var ∈ ["x".toList, "f = True".toList], (Step.ask var).CleanOrGuard := by
    simp only [Step.CleanOrGuard, Step.Clean]
    decide
  have hinline : IsInline sampleGuard := by decide
  have hclean : Step.Throughout (fun s _ => s.CleanOrGuard) guardedSteps :=
    throughout_guardedSteps hinline hinline (hask _ (by decide)) (hask _ (by decide))
      (isClean_samplePlan.steps.mono fun _ _ h => h.cleanOrGuard)
  have hnamed : Step.Throughout (fun s _ => s.NamedApart) guardedSteps := by decide +kernel
  have hcontained : Step.Throughout (fun s _ => s.Contained) guardedSteps := by
    refine throughout_guardedSteps ?_ ?_ trivial trivial
      ((isClean_samplePlan.steps.and isFaithful_samplePlan).mono fun _ _ h =>
        Step.contained_of_clean h.1 h.2)
    · rw [Step.Contained]
      decide +kernel
    · rw [Step.Contained]
      decide +kernel
  exact ⟨hclean.and hnamed, hcontained,
    names_decompile_unlines_emit (hclean.and hnamed) hcontained 4⟩

/-- Clean steps that are not named as structural lines, but a structural line is among the names
that are read from their lines. -/
def NamesStructural (n : Nat) (ns : List Step) : Prop :=
  Step.Throughout (fun s _ => s.CleanOrGuard ∧ s.NamedApart) ns ∧
    ∃ t ∈ names (decompile (unlines (emit n ns))), IsStructural t

/-- **Cleanness alone does not contain the steps.**  A guard takes the placeholder of an empty
branch for a name, and leaves the header of an else-branch to be read as a step.  A line feed in a
section or in the data of a snapshot begins a line of its own.  A parenthesis that the data leaves
open swallows the header of a branch, but not that of its else-branch. -/
theorem namesStructural_emit :
    NamesStructural 0 [.branch sampleGuard [] none] ∧
      NamesStructural 0 [.branch sampleGuard [.ask "x".toList] (some [.ask "x".toList])] ∧
      NamesStructural 0 [.enter "a\nelse:\nb".toList] ∧
      NamesStructural 2 [.snapshot ⟨true, [("k".toList, .str "a\nelse:\nb".toList)]⟩] ∧
      NamesStructural 0 [.snapshot ⟨true, [("k".toList, .str "showifdef(".toList)]⟩,
        .branch "x".toList [.ask ")".toList] (some [.ask "x".toList])] := by
  have hguard : IsInline sampleGuard := by decide
  have hcond : IsInline "x".toList := by decide
  have hask : ∀ var ∈ ["x".toList, ")".toList],
      (Step.ask var).CleanOrGuard ∧ (Step.ask var).NamedApart := by
    simp only [Step.CleanOrGuard, Step.Clean, Step.NamedApart]
    decide
  have hone : ∀ var ∈ ["x".toList, ")".toList],
      Step.Throughout (fun s _ => s.CleanOrGuard ∧ s.NamedApart) [.ask var] :=
    fun var hvar => .leaf (hask var hvar) rfl .nil
  have hx := hone "x".toList (by decide)
  have hclosing := hone ")".toList (by decide)
  refine ⟨⟨.cons ⟨hguard, trivial⟩ ?_ .nil, ?_⟩, ⟨.cons ⟨hguard, trivial⟩ ?_ .nil, ?_⟩,
    ⟨.leaf ⟨trivial, trivial⟩ rfl .nil, ?_⟩, ⟨.leaf ⟨trivial, trivial⟩ rfl .nil, ?_⟩,
    ⟨.leaf ⟨trivial, trivial⟩ rfl (.cons ⟨hcond, trivial⟩ ?_ .nil), ?_⟩⟩
  · exact List.forall_mem_singleton.mpr .nil
  · decide +kernel
  · exact List.forall_mem_cons.mpr ⟨hx, List.forall_mem_singleton.mpr hx⟩
  · decide +kernel
  · decide +kernel
  · decide +kernel
  · exact List.forall_mem_cons.mpr ⟨hclosing, List.forall_mem_singleton.mpr hx⟩
  · decide +kernel

end Script

end InterviewPlan
