import InterviewPlan.Proofs.Script.Extraction
import InterviewPlan.Proofs.Script.Rules

/-!
# What is read from a script

Whatever the lines of a script say, the steps that are read from them are legible, and no snapshot
among them has arguments.  The identifier that is read from a block stands on a line.

## Main definitions

* `Step.IsPlain`: a step without arguments of a snapshot

## Main results

* `Script.legible_steps`: steps that are read are legible and plain
* `Script.eq_of_extract`: what is known of a plan that is taken out of a block
-/

namespace InterviewPlan

open Text Script Statement

/-- A step that has no arguments of a snapshot. -/
def Step.IsPlain : Step → Prop
  | .snapshot args => args = .plain
  | _ => True

namespace Script

variable {n : Nat} {s : Step} {ns : List Step} {line cond item iter t : Text}
  {ls rest after body : List Text}

/-! ### What is read is legible -/

/-- A line that is not skipped holds a text that stands on a line and is no comment. -/
theorem isInline_of_not_isSkippable (hfeed : '\n' ∉ line) (h : ¬ isSkippable line = true) :
    IsInline (trim line) ∧ isComment (trim line) = false := by
  rw [isSkippable, Bool.or_eq_true, not_or] at h
  refine ⟨⟨?_, trim_trim line, fun hm => hfeed (mem_of_mem_trim hm)⟩, ?_⟩
  · simpa using h.1
  · simpa using h.2

/-- The name that a guard finds is a line of its body. -/
theorem isInline_of_guardedName? {flag name : Text} (hfeed : ∀ l ∈ ls, '\n' ∉ l)
    (h : guardedName? flag ls = some name) :
    IsInline name ∧ isComment name = false ∧ assigns flag name = false := by
  have hmem := List.mem_of_find?_eq_some h
  have hname := List.find?_some h
  obtain ⟨l, hl, rfl⟩ := List.mem_map.mp hmem
  simp only [Bool.and_eq_true, Bool.not_eq_true', List.isEmpty_eq_false_iff] at hname
  obtain ⟨⟨hne, hcomment⟩, hassigns⟩ := hname
  exact ⟨⟨hne, trim_trim l, fun hm => hfeed l hl (mem_of_mem_trim hm)⟩, hcomment, hassigns⟩

/-- A blank is no guard. -/
theorem guardedFlag?_singleton (c : Char) : Pattern.guardedFlag? [c] = none := by
  have hshort : ¬ "not".toList <+: [c] := fun h => absurd h.length_le (by simp)
  rw [Pattern.guardedFlag?, isPrefixOf?_eq_none hshort]
  rfl

/-- **A step that runs once is legible** where it has been read. -/
theorem legible_of_once? (hfeed : ∀ l ∈ rest, '\n' ∉ l) (hcond : ofText t = .condition cond)
    (h : once? n cond rest = some (s, after)) : s.Legible ∧ s.IsPlain := by
  obtain ⟨flag, name, hflag, hname, rfl, -⟩ := once?_eq_some h
  have hinline : IsInline flag := by
    rcases (clause?_of_ofText hcond).2 with htrim | ⟨c, rfl, -⟩
    · exact Pattern.isInline_of_guardedFlag? hflag (trim_eq_self_iff.mp htrim).2
    · rw [guardedFlag?_singleton] at hflag
      cases hflag
  obtain ⟨hinline', hcomment, hassigns⟩ := isInline_of_guardedName?
    (fun l hl => hfeed l (List.takeWhile_subset _ hl)) hname
  refine ⟨⟨⟨hinline', hcomment, ?_, ?_⟩, trivial⟩, trivial⟩
  · rwa [Step.effectiveFlag_some hinline]
  · rwa [Step.effectiveFlag_some hinline]

theorem isPlain_of_ofText (h : ofText t = .step s) : s.IsPlain := by
  rcases ofText_eq_step h with ⟨name, -, rfl⟩ | ⟨value, rfl⟩ | ⟨list, -, rfl⟩ | rfl <;> trivial

/-- What is read by the rules is legible, as each rule is about a line. -/
theorem Reads.throughout_legible (h : Reads n ls ns) (hfeed : ∀ l ∈ ls, '\n' ∉ l) :
    Step.Throughout (fun s _ => s.Legible ∧ s.IsPlain) ns := by
  -- all that is kept of the lines is that they are lines
  induction h with
  | nil _ => exact .nil
  | skip _ _ ih => exact ih (List.forall_mem_cons.mp hfeed).2
  | stop _ _ => exact .nil
  | pass _ _ _ _ ih => exact ih (List.forall_mem_cons.mp hfeed).2
  | step hholds hs _ ih =>
    obtain ⟨hline, hrest⟩ := List.forall_mem_cons.mp hfeed
    obtain ⟨hinline, hcomment⟩ := isInline_of_not_isSkippable hline hholds.not_isSkippable
    have hlegible := legible_of_ofText hinline hcomment hholds.ne_placeholder hs
    exact .leaf ⟨hlegible, isPlain_of_ofText hs⟩ (blocks_of_ofText hs) (ih hrest)
  | guard _ hcond honce _ ih =>
    obtain ⟨-, hrest⟩ := List.forall_mem_cons.mp hfeed
    obtain ⟨flag, name, -, -, rfl, -⟩ := once?_eq_some honce
    have hafter := once?_suffix honce
    exact .leaf (legible_of_once? hrest hcond honce) rfl (ih fun l hl => hrest l (hafter.subset hl))
  | branch _ hcond _ _ _ _ ihyes ih =>
    obtain ⟨-, hrest⟩ := List.forall_mem_cons.mp hfeed
    refine .cons ⟨⟨(clause?_of_ofText hcond).1, trivial⟩, trivial⟩ ?_ (ih ?_)
    · exact List.forall_mem_singleton.mpr (ihyes hrest)
    · exact fun l hl => hrest l ((afterBlock_suffix _ _).subset hl)
  | branchElse _ hcond _ helse _ _ _ ihyes ihno ih =>
    obtain ⟨-, hrest⟩ := List.forall_mem_cons.mp hfeed
    have hbody := (elseBody?_suffix helse).1.trans (afterBlock_suffix _ _)
    have hbelow := fun l hl => hrest l (hbody.subset hl)
    refine .cons ⟨⟨(clause?_of_ofText hcond).1, trivial⟩, trivial⟩ ?_ (ih ?_)
    · exact List.forall_mem_cons.mpr ⟨ihyes hrest, List.forall_mem_singleton.mpr (ihno hbelow)⟩
    · exact fun l hl => hbelow l ((afterBlock_suffix _ _).subset hl)
  | loop _ hloop _ _ ihbody ih =>
    obtain ⟨hline, hrest⟩ := List.forall_mem_cons.mp hfeed
    have hseparable := separable_of_ofText (fun hm => hline (mem_of_mem_trim hm)) hloop
    refine .cons ⟨⟨hseparable, trivial⟩, trivial⟩ ?_ (ih ?_)
    · exact List.forall_mem_singleton.mpr (ihbody hrest)
    · exact fun l hl => hrest l ((afterBlock_suffix _ _).subset hl)
  | storage _ _ _ ih =>
    obtain ⟨-, hrest⟩ := List.forall_mem_cons.mp hfeed
    have hmore := ih fun l hl => hrest l ((afterCall_suffix _ _ _).subset hl)
    exact .leaf ⟨Step.legible_snapshot_plain, rfl⟩ rfl hmore

/-- **Steps that are read are legible**, whatever the lines say. -/
theorem legible_steps (hfeed : ∀ l ∈ ls, '\n' ∉ l) :
    Step.Throughout (fun s _ => s.Legible ∧ s.IsPlain) (steps n ls) :=
  (reads_steps n ls).throughout_legible hfeed

end Script

namespace Extract

variable {block header id : Text} {ls : List Text}

/-! ### What is taken out of a block -/

theorem notMem_lineFeed_of_below? {isHead : Text → Bool}
    (h : below? isHead block = some (header, ls)) : ∀ l ∈ ls, '\n' ∉ l := by
  unfold below? at h
  split at h
  · next first rest hrest =>
    obtain ⟨-, rfl⟩ := Prod.mk.inj (Option.some.inj h)
    intro l hl
    obtain ⟨full, hfull, rfl⟩ := List.mem_map.mp hl
    have hmem : full ∈ fullLines block :=
      List.dropWhile_subset _ (hrest ▸ List.mem_cons_of_mem first hfull)
    exact notMem_lineFeed_dropEnding hmem
  · cases h

theorem eq_of_withContent? {lines : List Text} (h : withContent? lines = some ls) : lines = ls := by
  unfold withContent? at h
  split at h
  · cases h
  · exact Option.some.inj h

/-- The lines of a script are lines. -/
theorem notMem_lineFeed_of_payload? (h : payload? block = some ls) : ∀ l ∈ ls, '\n' ∉ l := by
  rcases Option.or_eq_some_iff.mp h with h | ⟨-, h⟩
  · simp only [strictPayload?, Option.bind_eq_bind, Option.bind_eq_some_iff] at h
    obtain ⟨⟨header, below⟩, hbelow, h⟩ := h
    obtain rfl := eq_of_withContent? h
    exact fun l hl => notMem_lineFeed_of_below? hbelow l (List.takeWhile_subset _ hl)
  · simp only [lenientPayload?, Option.bind_eq_bind, Option.bind_eq_some_iff] at h
    obtain ⟨⟨header, below⟩, hbelow, h⟩ := h
    obtain rfl := eq_of_withContent? h
    exact fun l hl => notMem_lineFeed_of_below? hbelow l (List.takeWhile_subset _ hl)

theorem notMem_lineFeed_dedent (h : ∀ l ∈ ls, '\n' ∉ l) : ∀ l ∈ dedent ls, '\n' ∉ l := by
  intro l hl
  obtain ⟨m, hm, rfl⟩ := List.mem_map.mp hl
  exact fun hfeed => h m hm (List.mem_of_mem_drop hfeed)

theorem mem_of_mem_dropEndWhile {p : Char → Bool} {t : Text} {c : Char}
    (h : c ∈ dropEndWhile p t) : c ∈ t :=
  List.rdropWhile_prefix p t |>.subset h

theorem mem_of_idValue? {line value : Text} {c : Char} (h : idValue? line = some value)
    (hc : c ∈ value) : c ∈ line := by
  simp only [idValue?, Option.bind_eq_bind, Option.bind_eq_some_iff] at h
  obtain ⟨rest, hrest, h⟩ := h
  obtain ⟨after, hafter, rfl⟩ := Option.map_eq_some_iff.mp hrest
  split at h
  · obtain rfl := Option.some.inj h
    have hmem := List.dropWhile_subset _ (mem_of_mem_dropEndWhile hc)
    have heq := List.isPrefixOf?_eq_some_iff_append_eq.mp hafter
    exact List.dropWhile_subset _ (heq ▸ List.mem_append_right _ hmem)
  · cases h

/-- **The identifier of a block stands on a line.** -/
theorem isInline_of_id? (h : id? block = some id) : IsInline id := by
  simp only [id?, Option.bind_eq_bind, Option.bind_eq_some_iff] at h
  obtain ⟨value, hvalue, h⟩ := h
  split at h
  · cases h
  · next hne =>
    obtain rfl := Option.some.inj h
    refine ⟨by simpa using hne, trim_trim _, ?_⟩
    intro hm
    obtain ⟨line, hline, hread⟩ := List.exists_of_findSome?_eq_some hvalue
    have hm' := List.dropWhile_subset _ (mem_of_mem_dropEndWhile (mem_of_mem_trim hm))
    exact notMem_lineFeed_of_mem_rawLines hline (mem_of_idValue? hread hm')

end Extract

namespace Script

/-- **A plan that is taken out of a block** has an identifier that stands on a line, counts as
mandatory, and has legible steps. -/
theorem eq_of_extract {block : Text} {plan : Plan} (h : extract block = some plan) :
    IsInline plan.id ∧ plan.mandatory = true ∧
      Step.Throughout (fun s _ => s.Legible ∧ s.IsPlain) plan.steps := by
  simp only [extract, Option.bind_eq_bind, Option.bind_eq_some_iff] at h
  obtain ⟨payload, hpayload, h⟩ := h
  obtain rfl := Option.some.inj h
  refine ⟨?_, rfl, ?_⟩
  · cases hid : Extract.id? block with
    | none =>
      have hfallback : IsInline Extract.fallbackId := by decide
      exact hfallback
    | some id => exact Extract.isInline_of_id? hid
  · have hlines := Extract.notMem_lineFeed_dedent (Extract.notMem_lineFeed_of_payload? hpayload)
    rw [readBlock_eq, List.drop_zero]
    exact legible_steps hlines

end Script

end InterviewPlan
