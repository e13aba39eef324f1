import InterviewPlan.Proofs.Script.Extraction

/-!
# Blocks of clean plans

A plan is clean if its fields stand on lines of their own and are not mistaken for something else.
The block of a clean plan is read as the plan in normal form, whatever the detector is given, as
long as its fields are also written faithfully: no text that is quoted has a line feed, the data of
a snapshot closes the parentheses that it opens, and a guard can tell its flag and its name.

## Main definitions

* `Step.Clean`, `Plan.IsClean`: steps and plans with clean fields
* `Step.FaithfulInLines`: steps whose fields survive being written in lines that are told apart
* `Step.Faithful`, `Plan.IsFaithful`: steps and plans whose lines are told apart as well

## Main results

* `Script.extractOrder_compile`: the block of a clean plan that is written faithfully reads back
* `Script.readsOtherwise_of_clean`: cleanness alone is not enough
-/

namespace InterviewPlan

open Text Script Statement Pattern

namespace Step

/-- A step with clean fields. -/
def Clean : Step → Prop
  | ask var =>
    IsInline var ∧ var ≠ placeholder ∧ var ≠ elseLine ∧ isComment var = false ∧
      snapshotOpening.isPrefixOf var = false ∧ section? var = none ∧ progress? var = none ∧
      gathered? var = none ∧ condition? var = none ∧ repetition? var = none
  | gather list => IsInline list ∧ isComment list = false
  | branch cond _ _ => IsInline cond ∧ guardedFlag? cond = none
  | loop item iter _ =>
    IsInline item ∧ IsInline iter ∧
      ∀ b d, isBlank b = true → isBlank d = true → ¬ [b, 'i', 'n', d] <:+: item ++ [' ']
  | once name flag => IsInline name ∧ ∀ f ∈ flag, IsInline f
  | enter _ => True
  | progress _ => True
  | snapshot _ => True

/-- A step whose fields survive being written in lines that are told apart already, so that a text
in quotation marks may have a line feed.  The entries of a snapshot leave as many parentheses open
as there were, and a guard does not take its name for a comment or for an assignment to its flag,
nor its flag for another one. -/
def FaithfulInLines : Step → Prop
  | once name flag =>
    isComment name = false ∧ ∀ f ∈ flag, assigns f name = false ∧ ¬ ('"' ∈ f ∧ ')' ∈ f)
  | snapshot args => args.IsBalanced
  | _ => True

/-- A step whose fields survive being written, and whose lines are told apart by their line
feeds. -/
structure Faithful (s : Step) : Prop where
  inLines : s.FaithfulInLines
  keepsLines : s.KeepsLines

theorem ofText_of_clean_ask {var : Text} (h : (ask var).Clean) :
    ofText var = .step (ask var) := by
  obtain ⟨-, -, -, -, hstorage, hsection, hprogress, hgather, hcond, hloop⟩ := h
  rw [ofText, hsection, hprogress, hgather, hcond, hloop]
  exact if_neg (by rw [hstorage]; decide)

/-- A property that derived flags have and all given ones is one of the flag that guards a step. -/
theorem effectiveFlag_of {p : Text → Prop} {name : Text} {flag : Option Text}
    (hderived : p (Flag.derived name)) (hgiven : ∀ f ∈ flag, p f) :
    p (effectiveFlag name flag) := by
  unfold effectiveFlag
  split
  · next f =>
    split
    · exact hderived
    · exact hgiven f rfl
  · exact hderived

/-- **Clean steps that are written faithfully are readable**, and legible if they are also cut into
lines faithfully. -/
theorem readable_of_clean {s : Step} (hclean : s.Clean) (hfaithful : s.FaithfulInLines) :
    s.Readable := by
  cases s with
  | ask var => exact ⟨hclean.1, hclean.2.2.2.1, hclean.2.1, ofText_of_clean_ask hclean⟩
  | gather list => exact hclean
  | branch cond yes no => exact clause?_space hclean.1
  | loop item iter body => exact separable_of_isInline hclean.1 hclean.2.1 hclean.2.2
  | once name flag =>
    obtain ⟨hname, hflag⟩ := hclean
    obtain ⟨hcomment, hmarks⟩ := hfaithful
    refine ⟨hname, hcomment, ?_, isInline_effectiveFlag hflag⟩
    exact effectiveFlag_of (p := fun f => assigns f name = false)
      (assigns_derived (List.Sublist.refl name))
      fun f hf => (hmarks f hf).1
  | snapshot args => exact hfaithful
  | _ => trivial

theorem legible_of_clean {s : Step} (hclean : s.Clean) (hfaithful : s.Faithful) : s.Legible :=
  ⟨readable_of_clean hclean hfaithful.inLines, hfaithful.keepsLines⟩

/-- Nor are they taken for others. -/
theorem unambiguous_of_clean {s : Step} {rest : List Step} (hclean : s.Clean)
    (hfaithful : s.FaithfulInLines) (hrest : ∀ next ∈ rest.head?, next.Clean) :
    s.Unambiguous rest := by
  cases s with
  | branch cond yes no =>
    constructor
    · intro flag hflag
      rw [hclean.2] at hflag
      cases hflag
    · rintro - next hnext rfl
      exact (hrest _ hnext).2.2.1 rfl
  | once name flag =>
    refine effectiveFlag_of (p := fun f => ¬ ('"' ∈ f ∧ ')' ∈ f)) ?_ ?_
    · rintro ⟨hmark, -⟩
      exact Flag.notMem_derived (by decide) (by decide) hmark
    · intro f hf
      exact (hfaithful.2 f hf).2
  | _ => trivial

end Step

/-- A plan with clean fields, at every depth. -/
structure Plan.IsClean (plan : Plan) : Prop where
  id : IsInline plan.id
  head : plan.id.head?.any isQuotationMark = false
  last : plan.id.getLast?.any isQuotationMark = false
  steps : Step.Throughout (fun s _ => s.Clean) plan.steps

/-- A plan whose fields survive being written, at every depth. -/
def Plan.IsFaithful (plan : Plan) : Prop := Step.Throughout (fun s _ => s.Faithful) plan.steps

namespace Script

theorem throughout_of_clean {ns : List Step}
    (h : Step.Throughout (fun s _ => s.Clean ∧ s.FaithfulInLines) ns) :
    Step.Throughout (fun s rest => s.Readable ∧ s.Unambiguous rest) ns := by
  induction h with
  | nil => exact .nil
  | cons head _ tail below ih =>
    refine .cons ⟨Step.readable_of_clean head.1 head.2,
      Step.unambiguous_of_clean head.1 head.2 ?_⟩ below ih
    intro next hnext
    obtain ⟨_, hnext, -⟩ := tail.exists_of_mem_head? hnext
    exact hnext

/-- **The block of a clean plan reads back** as the plan in normal form, whatever identifier and
label the detector is given, if its fields survive being written. -/
theorem extractOrder_compile {plan : Plan} (hclean : plan.IsClean) (hfaithful : plan.IsFaithful)
    (id : Text) (label : Option Text) :
    extractOrder (compile plan) id label = some ⟨plan.id, true, normal plan.steps⟩ := by
  have hboth := hclean.steps.and hfaithful
  have hlegible : Step.Throughout (fun s _ => s.Legible) plan.steps :=
    hboth.mono fun _ _ h => Step.legible_of_clean h.1 h.2
  have hsteps := throughout_of_clean (hboth.mono fun _ _ h => And.intro h.1 h.2.inLines)
  have hclear : plan.IsUnambiguous := ⟨hclean.head, hclean.last, hsteps.mono fun _ _ h => h.2⟩
  rw [extractOrder_compile_eq, extract_compile_eq_normal hclean.id hlegible hclear]

/-- A plan with steps of every kind; one of its percentages is no number. -/
def samplePlan : Plan :=
  ⟨"main".toList, false,
    [.enter "About \"you\"".toList, .progress (.number (.ofRatio false 5 2)), .progress .nan,
      .branch "over_18".toList [.ask "name".toList, .gather "pets".toList]
        (some [.once "final screen".toList none]),
      .loop "pet".toList "pets".toList [.once "greet".toList (some "greeted".toList)],
      .snapshot ⟨false, [("note".toList, .str "(a)".toList)]⟩]⟩

/-- Clean steps, one after the other and one below the other. -/
theorem isClean_samplePlan : samplePlan.IsClean := by
  refine ⟨by decide, by decide, by decide, ?_⟩
  have hask : (Step.ask "name".toList).Clean := by
    rw [Step.Clean]
    decide
  have hgather : (Step.gather "pets".toList).Clean := ⟨by decide, by decide⟩
  have hderived : (Step.once "final screen".toList none).Clean := ⟨by decide, nofun⟩
  have hgiven : (Step.once "greet".toList (some "greeted".toList)).Clean := by
    refine ⟨by decide, ?_⟩
    intro f hf
    obtain rfl := Option.some.inj hf
    decide
  have hbranch : IsInline "over_18".toList ∧ Pattern.guardedFlag? "over_18".toList = none := by
    decide
  refine .cons trivial nofun (.cons trivial nofun (.cons trivial nofun (.cons hbranch ?_
    (.cons ?_ ?_ (.cons trivial nofun .nil)))))
  · intro block hb
    rcases Step.mem_blocks_branch.mp hb with rfl | hb
    · exact .cons hask nofun (.cons hgather nofun .nil)
    · obtain rfl := Option.some.inj hb
      exact .cons hderived nofun .nil
  · refine ⟨by decide, by decide, ?_⟩
    intro b d _ _ h
    have hi : 'i' ∈ "pet".toList ++ [' '] := h.subset (by simp)
    exact absurd hi (by decide)
  · intro block hb
    obtain rfl := Step.mem_blocks_loop.mp hb
    exact .cons hgiven nofun .nil

theorem isFaithful_samplePlan : samplePlan.IsFaithful := by
  have hdelta : ((⟨false, [("note".toList, .str "(a)".toList)]⟩ : Snapshot).entryTexts.map
      (parenDelta none)) = [0] := by decide +kernel
  have hsection : '\n' ∉ "About \"you\"".toList := by decide
  refine .cons ⟨trivial, hsection⟩ nofun (.cons ⟨trivial, trivial⟩ nofun
    (.cons ⟨trivial, trivial⟩ nofun (.cons ⟨trivial, trivial⟩ ?_ (.cons ⟨trivial, trivial⟩ ?_
      (.cons ⟨⟨fun k => ?_, ?_⟩, ?_⟩ nofun .nil)))))
  · intro block hb
    rcases Step.mem_blocks_branch.mp hb with rfl | hb
    · exact .cons ⟨trivial, trivial⟩ nofun (.cons ⟨trivial, trivial⟩ nofun .nil)
    · obtain rfl := Option.some.inj hb
      exact .cons ⟨⟨by decide, nofun⟩, trivial⟩ nofun .nil
  · intro block hb
    obtain rfl := Step.mem_blocks_loop.mp hb
    refine .cons ⟨⟨by decide, ?_⟩, trivial⟩ nofun .nil
    intro f hf
    obtain rfl := Option.some.inj hf
    decide
  · rw [List.map_take, hdelta]
    rcases k with _ | k <;> simp
  · rw [hdelta]
    rfl
  · intro entry hentry
    rw [List.mem_singleton.mp hentry]
    decide +kernel

/-- The block of a plan with steps of every kind. -/
theorem extractOrder_compile_samplePlan :
    samplePlan.IsClean ∧ samplePlan.IsFaithful ∧
      extractOrder (compile samplePlan) [] none =
        some ⟨"main".toList, true, normal samplePlan.steps⟩ :=
  ⟨isClean_samplePlan, isFaithful_samplePlan,
    extractOrder_compile isClean_samplePlan isFaithful_samplePlan [] none⟩

/-- Clean steps whose block is not read as some others. -/
def ReadsOtherwise (ns expected : List Step) : Prop :=
  Plan.IsClean ⟨"main".toList, true, ns⟩ ∧
    extractOrder (compile ⟨"main".toList, true, ns⟩) [] none ≠ some ⟨"main".toList, true, expected⟩

/-- What is read is another plan if it is told apart from the expected one. -/
theorem readsOtherwise_of {α : Type} (f : Plan → α) {ns expected : List Step}
    (hclean : Step.Throughout (fun s _ => s.Clean) ns)
    (h : (extractOrder (compile ⟨"main".toList, true, ns⟩) [] none).map f ≠
      some (f ⟨"main".toList, true, expected⟩)) : ReadsOtherwise ns expected := by
  have hid : IsInline "main".toList := by decide
  exact ⟨⟨hid, rfl, rfl, hclean⟩, fun heq => h (congrArg (Option.map f) heq)⟩

/-- The percentages among the steps of a plan. -/
def percentages (plan : Plan) : List (Option Double) :=
  plan.steps.map fun
    | .progress value => some value
    | _ => none

/-- A single step that asks for a value. -/
theorem throughout_clean_ask : Step.Throughout (fun s _ => s.Clean) [.ask "x".toList] := by
  refine .cons ?_ nofun .nil
  rw [Step.Clean]
  decide

/-- A single step that runs once, with a flag of its own. -/
theorem throughout_clean_once {name flag : Text} (hname : IsInline name) (hflag : IsInline flag) :
    Step.Throughout (fun s _ => s.Clean) [.once name (some flag)] := by
  refine .cons ⟨hname, ?_⟩ nofun .nil
  intro f hf
  obtain rfl := Option.some.inj hf
  exact hflag

/-- **Cleanness alone is not enough.**  A percentage is written without its fraction, a zero without
its sign, and an infinity and what is no number as words; line feeds in a section or in the data of
a snapshot cut a line in two; a parenthesis that the data leaves open swallows what follows; a flag
with a quotation mark and a parenthesis is cut short; and a name that is a comment or an assignment
to the flag is passed over. -/
theorem readsOtherwise_of_clean :
    ReadsOtherwise [.progress (.number (.ofRatio false 5 2))]
        [.progress (.number (.ofRatio false 5 2))] ∧
      ReadsOtherwise [.progress (.number (.zero true))] [.progress (.number (.zero true))] ∧
      ReadsOtherwise [.progress (.number (.infinity false))]
        [.progress (.number (.infinity false))] ∧
      ReadsOtherwise [.progress .nan] [.progress .nan] ∧
      ReadsOtherwise [.enter "a\nb".toList] [.enter "a\nb".toList] ∧
      ReadsOtherwise [.snapshot ⟨true, [("k".toList, .str "a\nb".toList)]⟩, .ask "x".toList]
        [.snapshot .plain, .ask "x".toList] ∧
      ReadsOtherwise [.snapshot ⟨true, [("k".toList, .str "showifdef((".toList)]⟩, .ask "x".toList]
        [.snapshot .plain, .ask "x".toList] ∧
      ReadsOtherwise [.once "x".toList (some "a\") or not b".toList)]
        [.once "x".toList (some "a\") or not b".toList)] ∧
      ReadsOtherwise [.once "#x".toList (some "a".toList)] [.once "#x".toList (some "a".toList)] ∧
      ReadsOtherwise [.once "a = 1".toList (some "a".toList)]
        [.once "a = 1".toList (some "a".toList)] := by
  have hprogress : ∀ value, Step.Throughout (fun s _ => s.Clean) [.progress value] :=
    fun _ => .cons trivial nofun .nil
  refine ⟨readsOtherwise_of percentages (hprogress _) ?_,
    readsOtherwise_of percentages (hprogress _) ?_, readsOtherwise_of percentages (hprogress _) ?_,
    readsOtherwise_of percentages (hprogress _) ?_,
    readsOtherwise_of (·.steps.map Step.kind) (.cons trivial nofun .nil) ?_,
    readsOtherwise_of (·.steps.length) (.cons trivial nofun throughout_clean_ask) ?_,
    readsOtherwise_of (·.steps.length) (.cons trivial nofun throughout_clean_ask) ?_,
    readsOtherwise_of compile (throughout_clean_once (by decide) (by decide)) ?_,
    readsOtherwise_of (·.steps.map Step.kind) (throughout_clean_once (by decide) (by decide)) ?_,
    readsOtherwise_of (·.steps.map Step.kind) (throughout_clean_once (by decide) (by decide)) ?_⟩
  all_goals decide +kernel

end Script

end InterviewPlan
