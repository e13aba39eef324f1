import InterviewPlan.Proofs.Script.Image

/-!
# Normalizing blocks

A block is normalized by writing the plan that is taken out of it.  A normalized block has a plan
again, and writing that plan gives the same block, unless what was written is taken for something
else: the identifier loses quotation marks, an else-branch is found where a value is asked for, or a
guard finds another name or another flag.

## Main definitions

* `Script.ChangesAgain`: a block that takes two rounds to normalize, or more

## Main results

* `Script.compile_normal`: the normal form of a plan has the same block
* `Script.compile_extractOrder_compile`: normalizing a normalized block changes nothing
* `Script.changesAgain_of_ambiguous`: unless something is taken for something else
-/

namespace InterviewPlan

open Text Statement

namespace Script

variable {n : Nat} {s : Step} {ns : List Step}

/-! ### Normal forms are written alike -/

theorem number_unsignedZero (x : Binary) :
    number (unsignedZero x.roundToInteger).roundToInteger = number x.roundToInteger := by
  unfold unsignedZero
  split
  · next hzero =>
    have hrounded : (Binary.zero false).roundToInteger.isZero = true := by decide +kernel
    rw [number_of_isZero hrounded, number_of_isZero hzero]
  · rw [Binary.roundToInteger_roundToInteger]

/-- What a written percentage is read as is written like it. -/
theorem headline_progressStep (value : Double) :
    headline (progressStep value) = headline (.progress value) := by
  rcases progressStep_cases value with ⟨x, rfl, -, hstep⟩ | ⟨-, hround, hstep⟩
  · rw [hstep]
    exact congrArg ("set_progress(".toList ++ · ++ [')']) (number_unsignedZero x)
  · rw [hstep]
    exact congrArg ("set_progress(".toList ++ float · ++ [')']) hround.symm

theorem emitStep_progressStep (n : Nat) (value : Double) :
    emitStep n (progressStep value) = emitStep n (.progress value) := by
  have hhead := headline_progressStep value
  rw [emitStep_progress, ← hhead]
  rcases progressStep_cases value with ⟨x, -, -, hstep⟩ | ⟨-, -, hstep⟩
  · rw [hstep]
    exact emitStep_progress n _
  · rw [hstep]
    exact emitStep_ask n _

/-- The normal form of a plain step has the same lines if those of the blocks below it do. -/
theorem emitStep_normalStep (hplain : s.IsPlain)
    (hbelow : ∀ block ∈ s.blocks, ∀ {n : Nat}, emit n (normal block) = emit n block) :
    emitStep n (normalStep s) = emitStep n s := by
  cases s with
  | progress value => exact emitStep_progressStep n value
  | branch cond yes no =>
    have hyes := hbelow yes (by simp) (n := n + 2)
    have hbranch : ∀ no', elseLines n no' = elseLines n no →
        emitStep n (.branch cond (normal yes) no') = emitStep n (.branch cond yes no) := by
      intro no' hno
      rw [emitStep_branch, emitStep_branch, hyes, hno]
      rfl
    rcases no with _ | _ | ⟨e, es⟩
    · exact hbranch none rfl
    · exact hbranch none elseLines_some_nil.symm
    · have hno := hbelow (e :: es) (by simp) (n := n + 2)
      exact hbranch (some (normal (e :: es))) (congrArg (underElse n) hno)
  | loop item iter body =>
    have hbody := hbelow body (by simp) (n := n + 2)
    show emitStep n (.loop item iter (normal body)) = _
    rw [emitStep_loop, emitStep_loop, hbody]
    rfl
  | once name flag =>
    show emitStep n (.once name (some (Step.effectiveFlag name flag))) = _
    rw [emitStep_once, emitStep_once, headline_once, headline_once,
      Step.effectiveFlag_effectiveFlag]
  | snapshot args =>
    obtain rfl := hplain
    rfl
  | ask var => rfl
  | enter name => rfl
  | gather list => rfl

/-- **The normal form of plain steps has the same lines.** -/
theorem emit_normal (h : Step.Throughout (fun s _ => s.IsPlain) ns) :
    emit n (normal ns) = emit n ns := by
  induction h generalizing n with
  | nil => rfl
  | cons hplain _ _ ihbelow ihtail =>
    rw [normal, emit, emit, emitStep_normalStep hplain ihbelow, ihtail]

/-- **The normal form of a plan has the same block.** -/
theorem compile_normal {plan : Plan} (h : Step.Throughout (fun s _ => s.IsPlain) plan.steps) :
    compile ⟨plan.id, plan.mandatory, normal plan.steps⟩ = compile plan := by
  rw [compile, blockLines, emit_normal h]
  rfl

/-! ### A normalized block -/

/-- **Normalizing a normalized block** succeeds, and it changes nothing if nothing of the plan that
was written is taken for something else. -/
theorem compile_extractOrder_compile {block id : Text} {label : Option Text} {plan : Plan}
    (h : extractOrder block id label = some plan) :
    ∃ again, extractOrder (compile plan) id label = some again ∧
      (plan.IsUnambiguous → compile again = compile plan) := by
  have hread : extract block = some plan := by
    unfold extractOrder at h
    split at h
    · exact h
    · cases h
  obtain ⟨hid, hmandatory, hsteps⟩ := eq_of_extract hread
  have hlegible : Step.Throughout (fun s _ => s.Legible) plan.steps :=
    hsteps.mono fun _ _ hs => hs.1
  rw [extractOrder_compile_eq]
  refine ⟨_, extract_compile hid.2.2 hlegible, ?_⟩
  intro hclear
  have hnormal := extract_compile_eq_normal hid hlegible hclear
  rw [extract_compile hid.2.2 hlegible] at hnormal
  rw [Option.some.inj hnormal, ← compile_normal (hsteps.mono fun _ _ hs => hs.2), hmandatory]

/-- A block as it is written by hand. -/
def sampleBlock : Text :=
  ("id: \"main\"\nmandatory: no\n# ===== Interview order =====\ncode: |\n" ++
    "    name  \n    if over_18 :\n\n          # deeper\n      pets.gather( )\n    else:\n" ++
    "      for pet in pets:\n        pass\n    if not defined('greeted') or not greeted:\n" ++
    "      greeted = True\n      greet\n    set_progress(49.5)\n" ++
    "    store_variables_snapshot(persistent=True,\n      data=dict())\n").toList

/-- A block with statements of every kind. -/
theorem compile_extractOrder_compile_sampleBlock :
    ∃ plan again, extractOrder sampleBlock [] none = some plan ∧ plan.IsUnambiguous ∧
      extractOrder (compile plan) [] none = some again ∧ compile again = compile plan := by
  have hany :
      ((extractOrder sampleBlock [] none).any fun plan => decide plan.IsUnambiguous) = true := by
    unfold sampleBlock
    simp only [String.toList_append]
    decide +kernel
  obtain ⟨plan, hplan, hdecide⟩ := (Option.any_eq_true _ _).mp hany
  have hclear : plan.IsUnambiguous := of_decide_eq_true hdecide
  obtain ⟨again, hagain, hsame⟩ := compile_extractOrder_compile hplan
  exact ⟨plan, again, hplan, hclear, hagain, hsame hclear⟩

/-- A block whose normalized block changes when it is normalized. -/
def ChangesAgain (block : Text) : Prop :=
  ∃ plan again, extractOrder block [] none = some plan ∧
    extractOrder (compile plan) [] none = some again ∧ compile again ≠ compile plan

theorem changesAgain_of {block : Text}
    (h : ((extractOrder block [] none).any fun plan =>
      (extractOrder (compile plan) [] none).any fun again =>
        decide (compile again ≠ compile plan)) = true) : ChangesAgain block := by
  obtain ⟨plan, hplan, h⟩ := (Option.any_eq_true _ _).mp h
  obtain ⟨again, hagain, h⟩ := (Option.any_eq_true _ _).mp h
  exact ⟨plan, again, hplan, hagain, of_decide_eq_true h⟩

/-- **What is taken for something else changes a normalized block**: quotation marks are taken from
the identifier again, a value with the name of the header is taken for an else-branch, a guard finds
the placeholder or what stood behind a comment, and a guard is cut short in its flag. -/
theorem changesAgain_of_ambiguous :
    ChangesAgain "# === Interview order ===\nid: \" 'x' \"\ncode: |\n  name\n".toList ∧
      ChangesAgain ("# === Interview order ===\nid: x\ncode: |\n" ++
        "  if a:\n    name\n  pass\n  else:\n    rest\n").toList ∧
      ChangesAgain ("# === Interview order ===\nid: x\ncode: |\n" ++
        "  if not defined('f') or not f:\n    # nothing\n").toList ∧
      ChangesAgain ("# === Interview order ===\nid: x\ncode: |\n" ++
        "  if not defined('f') or not f:\n  # comment\n    name\n").toList ∧
      ChangesAgain ("# === Interview order ===\nid: x\ncode: |\n" ++
        "  if not defined('f') or not a\") or not b:\n    name\n").toList := by
  refine ⟨changesAgain_of ?_, changesAgain_of ?_, changesAgain_of ?_, changesAgain_of ?_,
    changesAgain_of ?_⟩
  · decide +kernel
  · decide +kernel
  · decide +kernel
  · decide +kernel
  · decide +kernel

end Script

end InterviewPlan
