import InterviewPlan.Proofs.Script.Extent
import InterviewPlan.Proofs.Script.Rules

/-!
# Steps do not look past a statement

What is read from the lines above a statement does not depend on it or on the lines below, as long
as the statement is not indented deeper than the block.  It closes everything that is open above it,
at every depth: the blocks of headers without lines, the bodies of guards that name nothing, and the
lines that belong to no step.  Only two constructs look further: the header of an else-branch
belongs to the branch above it, and a call that stores the answers goes on until its parentheses are
closed.

## Main definitions

* `Script.BeginsAnew`: lines that close what is open above them

## Main results

* `Script.Reads.append`: lines above a statement are read on their own
* `Script.readBlock_append`: so a block is read in two parts
-/

namespace InterviewPlan

open Text Statement

namespace Script

variable {n : Nat} {ls more body : List Text} {ns ms : List Step} {cond t : Text}

/-! ### What closes a block -/

/-- Lines that close every block above them that is indented at least as far, and belong to no step
of it: there are none, or the first of them holds a statement that is not indented deeper and is no
header of an else-branch. -/
structure BeginsAnew (target : Nat) (lines : List Text) : Prop where
  endsBlock : EndsBlock (target + 1) lines
  ne_else : ∀ line ∈ lines.head?, trim line ≠ elseLine

/-- The same lines close the blocks below a step. -/
theorem BeginsAnew.inner (h : BeginsAnew n more) : BeginsAnew (n + indentStep) more :=
  ⟨h.endsBlock.mono (Nat.succ_le_succ (Nat.le_add_right n indentStep)), h.ne_else⟩

theorem BeginsAnew.endsInner (h : BeginsAnew n more) : EndsBlock (n + indentStep) more :=
  h.endsBlock.mono (Nat.le_succ (n + 1))

/-- Nothing is read from lines at which the block ends. -/
theorem reads_of_endsBlock (h : EndsBlock n more) : Reads n more [] := by
  cases more with
  | nil => exact .nil n
  | cons line rest =>
    obtain ⟨hskip, hlt⟩ := h line rfl
    exact .stop hskip hlt

/-- A test that fails on the first of the lines below is done with the lines above. -/
theorem span_append_of_head {p : Text → Bool} (h : ∀ l ∈ more.head?, p l = false)
    (ls : List Text) :
    (ls ++ more).takeWhile p = ls.takeWhile p ∧
      (ls ++ more).dropWhile p = ls.dropWhile p ++ more := by
  induction ls with
  | nil =>
    cases more with
    | nil => exact ⟨rfl, rfl⟩
    | cons line rest =>
      have hline : ¬ p line = true := by
        rw [h line rfl]
        decide
      rw [List.nil_append, List.takeWhile_cons_of_neg hline, List.dropWhile_cons_of_neg hline]
      exact ⟨rfl, rfl⟩
  | cons l ls ih =>
    rw [List.cons_append, List.takeWhile_cons, List.dropWhile_cons, List.takeWhile_cons,
      List.dropWhile_cons]
    split
    · exact ⟨congrArg (l :: ·) ih.1, ih.2⟩
    · exact ⟨rfl, rfl⟩

theorem afterBlock_append_of_endsBlock (h : EndsBlock n more) (ls : List Text) :
    afterBlock n (ls ++ more) = afterBlock n ls ++ more := by
  refine (span_append_of_head (fun l hl => ?_) ls).2
  obtain ⟨hskip, hlt⟩ := h l hl
  rw [isInside, hskip, Bool.false_or, decide_eq_false_iff_not]
  exact Nat.not_le.mpr hlt

theorem once?_append (h : EndsBlock (n + 1) more) (cond : Text) (ls : List Text) :
    once? n cond (ls ++ more) = (once? n cond ls).map fun x => (x.1, x.2 ++ more) := by
  have hhead : ∀ l ∈ more.head?, isUnderGuard n l = false := by
    intro l hl
    obtain ⟨hskip, hlt⟩ := h l hl
    exact isUnderGuard_eq_false hskip (Nat.le_of_lt_succ hlt)
  obtain ⟨htake, hdrop⟩ := span_append_of_head hhead ls
  rw [once?, once?, htake, hdrop]
  cases Pattern.guardedFlag? cond with
  | none => rfl
  | some flag =>
    simp only [Option.bind_eq_bind, Option.bind_some]
    cases guardedName? flag (ls.takeWhile (isUnderGuard n)) <;> rfl

theorem elseBody?_append (h : BeginsAnew n more) (ls : List Text) :
    elseBody? n (ls ++ more) = (elseBody? n ls).map (· ++ more) := by
  cases ls with
  | nil =>
    cases more with
    | nil => rfl
    | cons line rest => exact if_neg fun helse => h.ne_else line rfl helse.2
  | cons l ls =>
    rw [List.cons_append, elseBody?, elseBody?]
    split <;> rfl

/-! ### Reading in two parts -/

/-- A call that stores the answers begins with its name. -/
theorem isPrefix_of_ofText_eq_storage (h : ofText t = .storage) : snapshotOpening <+: t := by
  unfold ofText at h
  split at h
  · cases h
  split at h
  · cases h
  split at h
  · cases h
  split at h
  · cases h
  split at h
  · cases h
  split at h
  · next hopen => exact List.isPrefixOf_iff_prefix.mp hopen
  · cases h

/-- Lines without calls that store the answers, in front of lines that are read as `ms`: either
nothing is read there, or the block goes on up to them. -/
structure ReadsUpTo (target : Nat) (ms : List Step) (lines : List Text) : Prop where
  no_call : ∀ l ∈ lines, ¬ snapshotOpening <+: trim l
  inside : ms = [] ∨ ∀ l ∈ lines, isInside target l = true

theorem ReadsUpTo.of_suffix (h : ReadsUpTo n ms ls) (hsuffix : body <:+ ls) : ReadsUpTo n ms body :=
  ⟨fun l hl => h.no_call l (hsuffix.subset hl),
    h.inside.imp_right fun hinside l hl => hinside l (hsuffix.subset hl)⟩

/-- Nothing is read below by a block that ends there. -/
theorem ReadsUpTo.inner (h : ReadsUpTo n ms ls) (hsuffix : body <:+ ls) (m : Nat) :
    ReadsUpTo m [] body :=
  ⟨(h.of_suffix hsuffix).no_call, Or.inl rfl⟩

/-- **Lines above a statement are read on their own**, and what is read from the lines below comes
after it. -/
theorem Reads.append (h : Reads n ls ns) (hls : ReadsUpTo n ms ls) (hmore : BeginsAnew n more)
    (hread : Reads n more ms) : Reads n (ls ++ more) (ns ++ ms) := by
  -- each rule applies to the longer lines as it does to the shorter ones: the blocks below a header
  -- end at the lines below, and what is left after them is longer by these
  induction h generalizing ms with
  | nil n => exact hread
  | skip hskip _ ih =>
    exact .skip hskip (ih (hls.of_suffix (List.suffix_cons _ _)) hmore hread)
  | @stop n line rest hskip hlt =>
    have hout : ¬ isInside n line = true := by
      rw [isInside, hskip, Bool.false_or, decide_eq_true_iff]
      exact Nat.not_le.mpr hlt
    obtain rfl := hls.inside.resolve_right fun hinside => hout (hinside line List.mem_cons_self)
    exact .stop hskip hlt
  | pass hskip hle hpass _ ih =>
    exact .pass hskip hle hpass (ih (hls.of_suffix (List.suffix_cons _ _)) hmore hread)
  | step hline hs _ ih =>
    exact .step hline hs (ih (hls.of_suffix (List.suffix_cons _ _)) hmore hread)
  | @guard n line cond rest after s ns hline hcond honce _ ih =>
    have honce' := once?_append hmore.endsBlock cond rest
    rw [honce, Option.map_some] at honce'
    have hsuffix := (once?_suffix honce).trans (List.suffix_cons line rest)
    exact .guard hline hcond honce' (ih (hls.of_suffix hsuffix) hmore hread)
  | @branch n line cond rest yes ns hline hcond honce helse _ _ ihyes ih =>
    have honce' := once?_append hmore.endsBlock cond rest
    rw [honce, Option.map_none] at honce'
    have helse' := elseBody?_append hmore (afterBlock (n + indentStep) rest)
    rw [helse, Option.map_none, ← afterBlock_append_of_endsBlock hmore.endsInner rest] at helse'
    have hrest := List.suffix_cons line rest
    have hyes := ihyes (hls.inner hrest _) hmore.inner (reads_of_endsBlock hmore.endsInner)
    have hmore' := ih (hls.of_suffix ((afterBlock_suffix _ rest).trans hrest)) hmore hread
    rw [List.append_nil] at hyes
    rw [← afterBlock_append_of_endsBlock hmore.endsInner rest] at hmore'
    exact .branch hline hcond honce' helse' hyes hmore'
  | @branchElse n line cond rest body yes no ns hline hcond honce helse _ _ _ ihyes ihno ih =>
    have honce' := once?_append hmore.endsBlock cond rest
    rw [honce, Option.map_none] at honce'
    have helse' := elseBody?_append hmore (afterBlock (n + indentStep) rest)
    rw [helse, Option.map_some, ← afterBlock_append_of_endsBlock hmore.endsInner rest] at helse'
    have hrest := List.suffix_cons line rest
    have hbody := (elseBody?_suffix helse).1.trans ((afterBlock_suffix _ rest).trans hrest)
    have hyes := ihyes (hls.inner hrest _) hmore.inner (reads_of_endsBlock hmore.endsInner)
    have hno := ihno (hls.inner hbody _) hmore.inner (reads_of_endsBlock hmore.endsInner)
    have hmore' := ih (hls.of_suffix ((afterBlock_suffix _ body).trans hbody)) hmore hread
    rw [List.append_nil] at hyes hno
    rw [← afterBlock_append_of_endsBlock hmore.endsInner body] at hmore'
    exact .branchElse hline hcond honce' helse' hyes hno hmore'
  | @loop n line item iter rest block ns hline hloop _ _ ihbody ih =>
    have hrest := List.suffix_cons line rest
    have hbody := ihbody (hls.inner hrest _) hmore.inner (reads_of_endsBlock hmore.endsInner)
    have hmore' := ih (hls.of_suffix ((afterBlock_suffix _ rest).trans hrest)) hmore hread
    rw [List.append_nil] at hbody
    rw [← afterBlock_append_of_endsBlock hmore.endsInner rest] at hmore'
    exact .loop hline hloop hbody hmore'
  | @storage n line rest ns _ hstorage _ _ =>
    exact absurd (isPrefix_of_ofText_eq_storage hstorage) (hls.no_call line List.mem_cons_self)

/-- **A block is read in two parts**, above and below a statement that is not indented deeper than
the block and is no header of an else-branch: whatever is left open above is closed there.  No line
above may begin a call that stores the answers. -/
theorem readBlock_append {target : Nat} {above below : List Text}
    (habove : ∀ l ∈ above, isSkippable l = true ∨ target ≤ indentOf l)
    (hcalls : ∀ l ∈ above, ¬ snapshotOpening <+: trim l)
    (hbelow : ∀ l ∈ below.head?,
      isSkippable l = false ∧ trim l ≠ elseLine ∧ indentOf l ≤ target) :
    (readBlock (above ++ below) 0 target).1 =
      (readBlock above 0 target).1 ++ (readBlock below 0 target).1 := by
  have hinside : ∀ l ∈ above, isInside target l = true := by
    intro l hl
    rcases habove l hl with hskip | hle
    · exact isInside_of_isSkippable hskip
    · exact isInside_of_le hle
  have hanew : BeginsAnew target below :=
    ⟨fun l hl => ⟨(hbelow l hl).1, Nat.lt_succ_of_le (hbelow l hl).2.2⟩,
      fun l hl => (hbelow l hl).2.1⟩
  have hread := (reads_steps target above).append ⟨hcalls, Or.inr hinside⟩ hanew
    (reads_steps target below)
  rw [readBlock_eq, readBlock_eq, readBlock_eq, List.drop_zero, List.drop_zero, List.drop_zero]
  exact hread.steps_eq

/-- The lines of a block with a branch, a loop and a guard that are all open at the end. -/
def openLines : List Text :=
  ["  if over_18:".toList, "        deeper".toList, "    name".toList,
    "    for pet in pets:".toList, "      if not defined('greeted') or not greeted:".toList,
    "        greeted = True".toList, "# nothing yet".toList, []]

/-- Everything that is open is closed by the next statement. -/
theorem readBlock_append_openLines :
    (∀ l ∈ openLines, isSkippable l = true ∨ 2 ≤ indentOf l) ∧
      (∀ l ∈ openLines, ¬ snapshotOpening <+: trim l) ∧
      (∀ l ∈ ["  rest".toList].head?,
        isSkippable l = false ∧ trim l ≠ elseLine ∧ indentOf l ≤ 2) ∧
      (readBlock (openLines ++ ["  rest".toList]) 0 2).1 =
        (readBlock openLines 0 2).1 ++ (readBlock ["  rest".toList] 0 2).1 := by
  have habove : ∀ l ∈ openLines, isSkippable l = true ∨ 2 ≤ indentOf l := by decide
  have hcalls : ∀ l ∈ openLines, ¬ snapshotOpening <+: trim l := by decide
  have hbelow : ∀ l ∈ ["  rest".toList].head?,
      isSkippable l = false ∧ trim l ≠ elseLine ∧ indentOf l ≤ 2 := by decide
  exact ⟨habove, hcalls, hbelow, readBlock_append habove hcalls hbelow⟩

end Script

end InterviewPlan
