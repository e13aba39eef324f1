import InterviewPlan.Proofs.Script.CleanBlock

/-!
# Clean steps between other lines

The lines of clean steps read back wherever they stand: below any other lines, at any indentation,
and above any line that ends their block.  Their own indentation tells them apart from what stands
around them, so that reading stops right behind them.

## Main results

* `Script.readBlock_emit`: the lines of clean steps read back between other lines
* `Script.readsOtherwise_between`: cleanness alone is not enough
-/

namespace InterviewPlan

open Text

namespace Script

variable {n : Nat} {ns : List Step} {before after : List Text}

/-- The lines of steps are the whole block in front of a line that ends it. -/
theorem takeWhile_isInside_emit (ns : List Step) (h : EndsBlock n after) :
    (emit n ns ++ after).takeWhile (isInside n) = emit n ns :=
  takeWhile_isInside_append (fun _ => le_indentOf_of_mem_emit) h

/-- **The lines of clean steps read back between other lines**, if their fields survive being
written: whatever stands in front of them, and up to the line that ends the block. -/
theorem readBlock_emit (hclean : Step.Throughout (fun s _ => s.Clean) ns)
    (hfaithful : Step.Throughout (fun s _ => s.FaithfulInLines) ns) (before : List Text)
    (hafter : EndsBlock n after) :
    readBlock (before ++ emit n ns ++ after) before.length n =
      (normal ns, (before ++ emit n ns).length) := by
  have hread := steps_emit (throughout_of_clean (hclean.and hfaithful)) hafter
  rw [List.append_assoc, readBlock_eq, List.drop_left, hread, takeWhile_isInside_emit ns hafter,
    List.length_append]

/-- Steps of every kind, one of them with a line feed in a quoted text. -/
def sampleSteps : List Step := .enter "About\nyou".toList :: samplePlan.steps

/-- Steps of every kind below a header and above a line of the block around them. -/
theorem readBlock_emit_sampleSteps :
    Step.Throughout (fun s _ => s.Clean) sampleSteps ∧
      Step.Throughout (fun s _ => s.FaithfulInLines) sampleSteps ∧ EndsBlock 2 ["y".toList] ∧
      readBlock (["if z:".toList] ++ emit 2 sampleSteps ++ ["y".toList]) 1 2 =
        (normal sampleSteps, (["if z:".toList] ++ emit 2 sampleSteps).length) := by
  have hclean : Step.Throughout (fun s _ => s.Clean) sampleSteps :=
    .cons trivial nofun isClean_samplePlan.steps
  have hfaithful : Step.Throughout (fun s _ => s.FaithfulInLines) sampleSteps :=
    .cons trivial nofun (isFaithful_samplePlan.mono fun _ _ h => h.inLines)
  have hend : EndsBlock 2 ["y".toList] := by
    intro line hline
    obtain rfl := Option.some.inj hline
    decide
  exact ⟨hclean, hfaithful, hend, readBlock_emit hclean hfaithful ["if z:".toList] hend⟩

/-- Clean steps whose lines, between two others, are not read as some others. -/
def ReadsOtherwiseBetween (ns expected : List Step) : Prop :=
  Step.Throughout (fun s _ => s.Clean) ns ∧ EndsBlock 2 ["y".toList] ∧
    readBlock (["if z:".toList] ++ emit 2 ns ++ ["y".toList]) 1 2 ≠
      (expected, (["if z:".toList] ++ emit 2 ns).length)

/-- What is read is something else if it is told apart from what is expected. -/
theorem readsOtherwiseBetween_of {α : Type} (f : List Step → α) {ns expected : List Step}
    (hclean : Step.Throughout (fun s _ => s.Clean) ns)
    (h : f (readBlock (["if z:".toList] ++ emit 2 ns ++ ["y".toList]) 1 2).1 ≠ f expected) :
    ReadsOtherwiseBetween ns expected := by
  refine ⟨hclean, ?_, fun heq => h (congrArg (fun r => f r.1) heq)⟩
  intro line hline
  obtain rfl := Option.some.inj hline
  decide

/-- The percentage that is set by the first step. -/
def firstPercentage (ns : List Step) : Option Double :=
  match ns with
  | .progress value :: _ => some value
  | _ => none

/-- **Cleanness alone is not enough** between other lines either.  A percentage loses its fraction,
a zero its sign, and an infinity and what is no number are no percentages; a parenthesis that the
data of a snapshot leaves open swallows the next step; a flag with a quotation mark and a
parenthesis is cut short; and a name that is a comment or an assignment to the flag is passed
over. -/
theorem readsOtherwise_between :
    ReadsOtherwiseBetween [.progress (.number (.ofRatio false 5 2))]
        [.progress (.number (.ofRatio false 5 2))] ∧
      ReadsOtherwiseBetween [.progress (.number (.zero true))]
        [.progress (.number (.zero true))] ∧
      ReadsOtherwiseBetween [.progress (.number (.infinity false))]
        [.progress (.number (.infinity false))] ∧
      ReadsOtherwiseBetween [.progress .nan] [.progress .nan] ∧
      ReadsOtherwiseBetween
        [.snapshot ⟨true, [("k".toList, .str "showifdef((".toList)]⟩, .ask "x".toList]
        [.snapshot .plain, .ask "x".toList] ∧
      ReadsOtherwiseBetween [.once "x".toList (some "a\") or not b".toList)]
        [.once "x".toList (some "a\") or not b".toList)] ∧
      ReadsOtherwiseBetween [.once "#x".toList (some "a".toList)]
        [.once "#x".toList (some "a".toList)] ∧
      ReadsOtherwiseBetween [.once "a = 1".toList (some "a".toList)]
        [.once "a = 1".toList (some "a".toList)] := by
  have hprogress : ∀ value, Step.Throughout (fun s _ => s.Clean) [.progress value] :=
    fun _ => .cons trivial nofun .nil
  refine ⟨readsOtherwiseBetween_of firstPercentage (hprogress _) ?_,
    readsOtherwiseBetween_of firstPercentage (hprogress _) ?_,
    readsOtherwiseBetween_of firstPercentage (hprogress _) ?_,
    readsOtherwiseBetween_of firstPercentage (hprogress _) ?_,
    readsOtherwiseBetween_of List.length (.cons trivial nofun throughout_clean_ask) ?_,
    readsOtherwiseBetween_of (emit 0) (throughout_clean_once (by decide) (by decide)) ?_,
    readsOtherwiseBetween_of (·.map Step.kind) (throughout_clean_once (by decide) (by decide)) ?_,
    readsOtherwiseBetween_of (·.map Step.kind) (throughout_clean_once (by decide) (by decide)) ?_⟩
  all_goals decide +kernel

end Script

end InterviewPlan
