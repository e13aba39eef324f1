import InterviewPlan.Proofs.Plan.Throughout
import InterviewPlan.Proofs.Script.Statement
import InterviewPlan.Script.Block

/-!
# Legible steps

A step is legible if its own lines read back as the statements they were written for.  That is a
condition on its fields alone; what stands around the step does not matter.  Every step that has
been read from a line is legible.

## Main definitions

* `Snapshot.entryTexts`, `Snapshot.IsBalanced`: the written data of a snapshot
* `Step.Readable`: a step whose lines are read as they were written
* `Step.KeepsLines`: a step whose lines are told apart by their line feeds
* `Step.Legible`: a step with both properties

## Main results

* `Statement.legible_of_ofText`: a step that has been read is legible
* `Statement.clause?_of_ofText`, `Statement.separable_of_ofText`: so are the parts of a header
-/

namespace InterviewPlan

open Text Script Statement Pattern

/-- The entries of the data of a snapshot as they are written, without indentation. -/
def Snapshot.entryTexts (args : Snapshot) : List Text :=
  args.data.map fun (key, value) => quote key ++ ": ".toList ++ literal value ++ [',']

/-- Whether the written entries close no more parentheses than they have opened, and all of them at
the end. -/
def Snapshot.IsBalanced (args : Snapshot) : Prop :=
  (∀ k, 0 ≤ ((args.entryTexts.take k).map (parenDelta none)).sum) ∧
    (args.entryTexts.map (parenDelta none)).sum = 0

namespace Step

/-- A step whose lines are read as they were written where they are told apart already, so that a
text in quotation marks may have a line feed. -/
def Readable : Step → Prop
  | ask var =>
    IsInline var ∧ isComment var = false ∧ var ≠ placeholder ∧ ofText var = .step (ask var)
  | enter _ => True
  | progress _ => True
  | gather list => IsInline list ∧ isComment list = false
  | branch cond _ _ => clause? (' ' :: cond) = some cond
  | loop item iter _ => Separable item iter
  | once name flag =>
    IsInline name ∧ isComment name = false ∧ assigns (effectiveFlag name flag) name = false ∧
      IsInline (effectiveFlag name flag)
  | snapshot args => args.IsBalanced

/-- A step whose lines are told apart by their line feeds: the name of a section and the entries of
a snapshot have none. -/
def KeepsLines : Step → Prop
  | enter name => '\n' ∉ name
  | snapshot args => ∀ entry ∈ args.entryTexts, '\n' ∉ entry
  | _ => True

/-- A step whose lines are told apart and read as they were written. -/
structure Legible (s : Step) : Prop where
  readable : s.Readable
  keepsLines : s.KeepsLines

theorem legible_snapshot_plain : (snapshot .plain).Legible := by
  refine ⟨⟨fun k => ?_, rfl⟩, fun entry h => ?_⟩
  · simp [Snapshot.entryTexts, Snapshot.plain]
  · cases h

end Step

namespace Statement

variable {t cond item iter : Text} {s : Step}

/-! ### The forms of a statement -/

/-- A line that is a step by itself is a call, or it asks for its own text. -/
theorem ofText_eq_step (h : ofText t = .step s) :
    (∃ name, section? t = some name ∧ s = .enter name) ∨ (∃ value, s = .progress value) ∨
      (∃ list, gathered? t = some list ∧ s = .gather list) ∨ s = .ask t := by
  unfold ofText at h
  split at h
  · next name hname =>
    cases h
    exact Or.inl ⟨name, hname, rfl⟩
  split at h
  · next value _ =>
    cases h
    exact Or.inr (Or.inl ⟨.number value, rfl⟩)
  split at h
  · next list hlist =>
    cases h
    exact Or.inr (Or.inr (Or.inl ⟨list, hlist, rfl⟩))
  split at h
  · cases h
  split at h
  · cases h
  split at h
  · cases h
  · cases h
    exact Or.inr (Or.inr (Or.inr rfl))

/-- Nothing stands below a step of a single line. -/
theorem blocks_of_ofText (h : ofText t = .step s) : s.blocks = [] := by
  rcases ofText_eq_step h with ⟨name, -, rfl⟩ | ⟨value, rfl⟩ | ⟨list, -, rfl⟩ | rfl <;> rfl

theorem ofText_eq_condition (h : ofText t = .condition cond) : condition? t = some cond := by
  unfold ofText at h
  split at h
  · cases h
  split at h
  · cases h
  split at h
  · cases h
  split at h
  · next cond' hcond =>
    cases h
    exact hcond
  split at h
  · cases h
  split at h <;> cases h

theorem ofText_eq_repetition (h : ofText t = .repetition item iter) :
    repetition? t = some (item, iter) := by
  unfold ofText at h
  split at h
  · cases h
  split at h
  · cases h
  split at h
  · cases h
  split at h
  · cases h
  split at h
  · next item' iter' hloop =>
    cases h
    exact hloop
  split at h <;> cases h

/-! ### What is read is legible -/

/-- The condition of a header that has been read is read again, and it is trimmed or a blank. -/
theorem clause?_of_ofText (h : ofText t = .condition cond) :
    clause? (' ' :: cond) = some cond ∧
      (trim cond = cond ∨ ∃ c, cond = [c] ∧ isBlank c = true) := by
  obtain ⟨z, -, hz⟩ := condition?_eq_some (ofText_eq_condition h)
  refine ⟨clause?_reread hz, ?_⟩
  obtain ⟨-, ⟨-, rfl⟩ | ⟨c, rfl, hc, -⟩⟩ := clause?_eq_some hz
  · exact Or.inl (trim_trim z)
  · exact Or.inr ⟨c, rfl, hc⟩

theorem separable_of_ofText (hfeed : '\n' ∉ t) (h : ofText t = .repetition item iter) :
    Separable item iter := by
  obtain ⟨z, rfl, hz⟩ := repetition?_eq_some (ofText_eq_repetition h)
  refine separable_of_loopHeader? ?_ hz
  intro hm
  exact hfeed (List.mem_append_left _ (List.mem_append_right _ hm))

/-- What is gathered from a trimmed line begins as the line does. -/
theorem isInline_of_gathered? {list : Text} (ht : IsInline t) (h : gathered? t = some list) :
    IsInline list ∧ list.head? = t.head? := by
  obtain ⟨l, b, rfl, hne, hfeed, rfl, -⟩ := gathered?_eq_some h
  obtain ⟨c, r, rfl⟩ := List.exists_cons_of_ne_nil hne
  have hc : isBlank c = false := (trim_eq_self_iff.mp ht.2.1).1 c rfl
  obtain ⟨e, he⟩ := trimEnd_isPrefix (trimStart (c :: r))
  have hstart : trimStart (c :: r) = c :: r := trimStart_eq_self_iff.mpr (by simp [hc])
  have hmem : c ∈ trim (c :: r) := mem_trim_of_mem List.mem_cons_self hc
  have hhead : (trim (c :: r)).head? = some c := by
    rw [hstart] at he
    rw [trim, hstart]
    rw [trim, hstart] at hmem
    cases htrim : trimEnd (c :: r) with
    | nil =>
      rw [htrim] at hmem
      cases hmem
    | cons a w =>
      rw [htrim] at he
      rw [(List.cons.inj he).1, List.head?_cons]
  refine ⟨⟨List.ne_nil_of_mem hmem, trim_trim _, fun hm => hfeed (mem_of_mem_trim hm)⟩, ?_⟩
  rw [hhead]
  rfl

/-- **A step that has been read is legible.** -/
theorem legible_of_ofText (ht : IsInline t) (hcomment : isComment t = false)
    (hplaceholder : t ≠ placeholder) (h : ofText t = .step s) : s.Legible := by
  rcases ofText_eq_step h with ⟨name, hname, rfl⟩ | ⟨value, rfl⟩ | ⟨list, hlist, rfl⟩ | rfl
  · exact ⟨trivial, fun hm => ht.2.2 ((section?_eq_some hname).2 hm)⟩
  · exact ⟨trivial, trivial⟩
  · obtain ⟨hinline, hhead⟩ := isInline_of_gathered? ht hlist
    exact ⟨⟨hinline, by rwa [isComment, hhead]⟩, trivial⟩
  · exact ⟨⟨ht, hcomment, hplaceholder, h⟩, trivial⟩

end Statement

end InterviewPlan
