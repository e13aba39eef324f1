import InterviewPlan.Proofs.Text.Trim

/-!
# Lines and their joining

Joining lines by line feeds and cutting the text again gives the lines back, as long as no line has
a line feed and none is empty.  A line that ends visibly also keeps its last character, since only a
carriage return can be taken for part of a line ending.

## Main definitions

* `Text.EndsVisibly`: a line that has a last character, and one that is not blank

## Main results

* `Text.lineInduction`: induction over the lines of a text
* `Text.rawLines_unlines`, `Text.lines_unlines`: cutting undoes joining
* `Text.exists_lines_unlines`: lines that may be blank, too, are cut apart again
* `Text.fullLines_flatten_filter`: a text without some of its lines has the others
* `Text.notMem_lineFeed_of_mem_lines`: no line has a line feed
-/

namespace InterviewPlan

namespace Text

variable {l r t : Text} {ls : List Text}

/-! ### Joining -/

@[simp] theorem joinWith_nil (separator : Text) : joinWith separator [] = [] := rfl

@[simp] theorem joinWith_singleton (separator l : Text) : joinWith separator [l] = l := by
  simp [joinWith, List.intercalate]

@[simp] theorem joinWith_cons_cons (separator l m : Text) (ls : List Text) :
    joinWith separator (l :: m :: ls) = l ++ separator ++ joinWith separator (m :: ls) := by
  simp [joinWith, List.intercalate]

theorem unlines_singleton (l : Text) : unlines [l] = l := joinWith_singleton _ l

theorem unlines_cons (l : Text) (h : ls ≠ []) : unlines (l :: ls) = l ++ '\n' :: unlines ls := by
  obtain ⟨m, ms, rfl⟩ := List.exists_cons_of_ne_nil h
  simp [unlines]

/-! ### Cutting -/

/-- **Induction over the lines of a text**: it has no line feed, or a line stands before its first
one. -/
@[elab_as_elim]
theorem lineInduction {motive : Text → Prop} (last : ∀ l, '\n' ∉ l → motive l)
    (cons : ∀ l r, '\n' ∉ l → motive r → motive (l ++ '\n' :: r)) (t : Text) : motive t := by
  by_cases h : '\n' ∈ t
  · obtain ⟨l, r, rfl, hl⟩ := List.eq_append_cons_of_mem h
    exact cons l r hl (lineInduction last cons r)
  · exact last t h
termination_by t.length
decreasing_by
  subst_vars
  rw [List.length_append, List.length_cons]
  omega

/-- The first line ends at the first line feed. -/
theorem fullLines_append (h : '\n' ∉ l) (r : Text) :
    fullLines (l ++ '\n' :: r) = (l ++ ['\n']) :: fullLines r := by
  induction l with
  | nil => simp [fullLines]
  | cons c l ih =>
    obtain ⟨hc, hl⟩ := List.ne_and_not_mem_of_not_mem_cons h
    rw [List.cons_append, fullLines, if_neg hc.symm, ih hl]
    rfl

/-- Further lines follow a line feed. -/
theorem fullLines_append_lineFeed (t r : Text) :
    fullLines (t ++ '\n' :: r) = fullLines (t ++ ['\n']) ++ fullLines r := by
  induction t using lineInduction with
  | last l hl =>
    rw [fullLines_append hl, fullLines_append hl, fullLines]
    rfl
  | cons l s hl ih =>
    rw [List.append_assoc, List.append_assoc, List.cons_append, List.cons_append,
      fullLines_append hl, fullLines_append hl, ih]
    rfl

/-- A text without line feeds is a line. -/
theorem fullLines_eq_singleton (hne : l ≠ []) (h : '\n' ∉ l) : fullLines l = [l] := by
  induction l with
  | nil => exact absurd rfl hne
  | cons c l ih =>
    obtain ⟨hc, hl⟩ := List.ne_and_not_mem_of_not_mem_cons h
    rw [fullLines, if_neg hc.symm]
    cases l with
    | nil => rfl
    | cons d l => rw [ih (List.cons_ne_nil d l) hl]

theorem dropLineFeed_concat (l : Text) : dropLineFeed (l ++ ['\n']) = l := by
  simp [dropLineFeed]

theorem dropLineFeed_eq_self (h : '\n' ∉ l) : dropLineFeed l = l := by
  unfold dropLineFeed
  split
  · next r hr => exact absurd (List.mem_reverse.mp (hr ▸ List.mem_cons_self)) h
  · rfl

/-- A text that has a last character, and one that is not blank. -/
def EndsVisibly (t : Text) : Prop := ∃ u c, t = u ++ [c] ∧ isBlank c = false

theorem EndsVisibly.ne_nil (h : EndsVisibly l) : l ≠ [] := by
  obtain ⟨u, c, rfl, -⟩ := h
  simp

theorem EndsVisibly.append_left (h : EndsVisibly l) (t : Text) : EndsVisibly (t ++ l) := by
  obtain ⟨u, c, rfl, hc⟩ := h
  exact ⟨t ++ u, c, by rw [List.append_assoc], hc⟩

theorem endsVisibly_concat (u : Text) {c : Char} (hc : isBlank c = false) :
    EndsVisibly (u ++ [c]) :=
  ⟨u, c, rfl, hc⟩

theorem IsInline.endsVisibly (h : IsInline t) : EndsVisibly t := by
  cases t using List.reverseRecOn with
  | nil => exact absurd rfl h.1
  | append_singleton u c =>
    exact ⟨u, c, rfl, (trim_eq_self_iff.mp h.2.1).2 c (by rw [List.getLast?_concat]; rfl)⟩

/-- Joined lines end visibly if all of them do. -/
theorem endsVisibly_unlines {ls : List Text} (hne : ls ≠ []) (h : ∀ l ∈ ls, EndsVisibly l) :
    EndsVisibly (unlines ls) := by
  induction ls with
  | nil => exact absurd rfl hne
  | cons l ls ih =>
    cases ls with
    | nil => simpa [unlines_singleton] using h
    | cons m ls =>
      rw [unlines_cons l (List.cons_ne_nil m ls), ← List.singleton_append, ← List.append_assoc]
      have hrest := ih (List.cons_ne_nil m ls) fun x hx => h x (List.mem_cons_of_mem l hx)
      exact hrest.append_left _

theorem dropEnding_concat (h : EndsVisibly l) : dropEnding (l ++ ['\n']) = l := by
  obtain ⟨u, c, rfl, hc⟩ := h
  have hr : c ≠ '\r' := by
    rintro rfl
    exact absurd hc (by decide)
  unfold dropEnding
  split
  · next r hr' =>
    simp at hr'
    exact absurd hr'.1 hr
  · next r _ hr' => simp at hr'; simp [← hr']
  · next _ hn => exact absurd (by simp) (hn (u ++ [c]).reverse)

theorem dropEnding_eq_self (h : '\n' ∉ l) : dropEnding l = l := by
  unfold dropEnding
  split
  · next r hr => exact absurd (List.mem_reverse.mp (hr ▸ List.mem_cons_self)) h
  · next r _ hr => exact absurd (List.mem_reverse.mp (hr ▸ List.mem_cons_self)) h
  · rfl

theorem dropEnding_lineFeed (h : '\r' ∉ l) : dropEnding (l ++ ['\n']) = l := by
  have hreverse : (l ++ ['\n']).reverse = '\n' :: l.reverse := by simp
  unfold dropEnding
  rw [hreverse]
  split
  · next r hr =>
    have hmem : '\r' ∈ l.reverse := by
      rw [(List.cons.inj hr).2]
      exact List.mem_cons_self
    exact absurd (List.mem_reverse.mp hmem) h
  · next r _ hr => rw [← (List.cons.inj hr).2, List.reverse_reverse]
  · next _ hn => exact absurd rfl (hn l.reverse)

theorem rawLines_append (hl : '\n' ∉ l) (r : Text) :
    rawLines (l ++ '\n' :: r) = l :: rawLines r := by
  rw [rawLines, fullLines_append hl, List.map_cons, dropLineFeed_concat]
  rfl

/-- What stands in front of a line stays in front of it, if it has no part of a line ending. -/
theorem dropEnding_append {b : Text} (hfeed : '\n' ∉ b) (hreturn : '\r' ∉ b) (l : Text) :
    dropEnding (b ++ l) = b ++ dropEnding l := by
  obtain ⟨r, rfl⟩ : ∃ r, l = r.reverse := ⟨l.reverse, (List.reverse_reverse l).symm⟩
  rcases r with _ | ⟨c, _ | ⟨d, r⟩⟩
  · rw [List.reverse_nil, List.append_nil, dropEnding_eq_self hfeed]
    exact (List.append_nil b).symm
  · rw [List.reverse_singleton]
    by_cases hc : c = '\n'
    · rw [hc, dropEnding_lineFeed hreturn]
      exact (List.append_nil b).symm
    · rw [dropEnding_eq_self (by simp [hfeed, Ne.symm hc]),
        dropEnding_eq_self (by simp [Ne.symm hc])]
  · unfold dropEnding
    rw [List.reverse_append, List.reverse_reverse]
    by_cases hc : c = '\n'
    · by_cases hd : d = '\r' <;> simp [hc, hd]
    · simp [hc]

theorem dropLineFeed_append {b : Text} (hfeed : '\n' ∉ b) (l : Text) :
    dropLineFeed (b ++ l) = b ++ dropLineFeed l := by
  obtain ⟨r, rfl⟩ : ∃ r, l = r.reverse := ⟨l.reverse, (List.reverse_reverse l).symm⟩
  rcases r with _ | ⟨c, r⟩
  · rw [List.reverse_nil, List.append_nil, dropLineFeed_eq_self hfeed]
    exact (List.append_nil b).symm
  · unfold dropLineFeed
    rw [List.reverse_append, List.reverse_reverse]
    by_cases hc : c = '\n' <;> simp [hc]

/-- The first of joined lines. -/
theorem lines_unlines_cons (hfeed : '\n' ∉ l) (hreturn : '\r' ∉ l) (h : ls ≠ []) :
    lines (unlines (l :: ls)) = l :: lines (unlines ls) := by
  rw [unlines_cons l h, lines, fullLines_append hfeed, List.map_cons, dropEnding_lineFeed hreturn]
  rfl

/-- **Cutting into lines undoes joining**, but for an empty line at the end. -/
theorem exists_lines_unlines (h : ∀ l ∈ ls, '\n' ∉ l ∧ '\r' ∉ l) :
    ∃ m, lines (unlines ls) ++ List.replicate m [] = ls := by
  induction ls with
  | nil => exact ⟨0, rfl⟩
  | cons l ls ih =>
    obtain ⟨⟨hfeed, hreturn⟩, hls⟩ := List.forall_mem_cons.mp h
    cases ls with
    | nil =>
      rw [unlines_singleton]
      by_cases hne : l = []
      · exact ⟨1, by rw [hne]; rfl⟩
      · refine ⟨0, ?_⟩
        rw [lines, fullLines_eq_singleton hne hfeed, List.map_singleton, dropEnding_eq_self hfeed]
        rfl
    | cons m ls =>
      obtain ⟨n, hn⟩ := ih hls
      refine ⟨n, ?_⟩
      rw [lines_unlines_cons hfeed hreturn (List.cons_ne_nil m ls), List.cons_append, hn]

theorem trim_of_mem_replicate (k : Nat) : ∀ l ∈ List.replicate k ([] : Text), trim l = [] := by
  intro l hl
  rw [List.eq_of_mem_replicate hl]
  rfl

/-- Cutting joined lines, whatever is done to each of them then. -/
theorem map_fullLines_unlines (f : Text → Text) (hne : ∀ l ∈ ls, l ≠ []) (hn : ∀ l ∈ ls, '\n' ∉ l)
    (hf : ∀ l ∈ ls, f l = l ∧ f (l ++ ['\n']) = l) : (fullLines (unlines ls)).map f = ls := by
  induction ls with
  | nil => rfl
  | cons l ls ih =>
    obtain ⟨hnel, hne⟩ := List.forall_mem_cons.mp hne
    obtain ⟨hnl, hn⟩ := List.forall_mem_cons.mp hn
    obtain ⟨⟨hself, hconcat⟩, hf⟩ := List.forall_mem_cons.mp hf
    cases ls with
    | nil =>
      rw [unlines_singleton, fullLines_eq_singleton hnel hnl, List.map_singleton, hself]
    | cons m ls =>
      rw [unlines_cons l (List.cons_ne_nil m ls), fullLines_append hnl, List.map_cons, hconcat,
        ih hne hn hf]

/-- **Cutting at line feeds undoes joining.** -/
theorem rawLines_unlines (hne : ∀ l ∈ ls, l ≠ []) (hn : ∀ l ∈ ls, '\n' ∉ l) :
    rawLines (unlines ls) = ls :=
  map_fullLines_unlines dropLineFeed hne hn fun l hl =>
    ⟨dropLineFeed_eq_self (hn l hl), dropLineFeed_concat l⟩

/-- **Cutting into lines undoes joining** lines that end visibly. -/
theorem lines_unlines (hv : ∀ l ∈ ls, EndsVisibly l) (hn : ∀ l ∈ ls, '\n' ∉ l) :
    lines (unlines ls) = ls :=
  map_fullLines_unlines dropEnding (fun l hl => (hv l hl).ne_nil) hn fun l hl =>
    ⟨dropEnding_eq_self (hn l hl), dropEnding_concat (hv l hl)⟩

/-- The ending of a line is blank. -/
theorem trim_dropEnding (l : Text) : trim (dropEnding l) = trim l := by
  have hfeed : ∀ c ∈ ['\n'], isBlank c = true := List.forall_mem_singleton.mpr isBlank_lineFeed
  unfold dropEnding
  split
  · next r hr =>
    have hl : l = r.reverse ++ ['\r', '\n'] := by
      rw [← List.reverse_reverse l, hr]
      simp
    rw [hl, trim_append_blank (List.forall_mem_cons.mpr ⟨by decide, hfeed⟩)]
  · next r _ hr =>
    have hl : l = r.reverse ++ ['\n'] := by
      rw [← List.reverse_reverse l, hr]
      simp
    rw [hl, trim_append_blank hfeed]
  · rfl

/-- Lines that are left over from a text are its lines. -/
theorem fullLines_flatten_filter (p : Text → Bool) (t : Text) :
    fullLines ((fullLines t).filter p).flatten = (fullLines t).filter p := by
  induction t using lineInduction with
  | last l hl =>
    by_cases hne : l = []
    · rw [hne]
      rfl
    · rw [fullLines_eq_singleton hne hl, List.filter_singleton]
      cases p l with
      | true => simpa using fullLines_eq_singleton hne hl
      | false => rfl
  | cons l r hl ih =>
    rw [fullLines_append hl, List.filter_cons]
    split
    · rw [List.flatten_cons, List.append_assoc, List.singleton_append, fullLines_append hl, ih]
    · exact ih

/-! ### Where line feeds are -/

/-- A line has a line feed at its end, if at all. -/
theorem exists_of_mem_fullLines (h : l ∈ fullLines t) :
    ∃ u, '\n' ∉ u ∧ (l = u ++ ['\n'] ∨ l = u) := by
  induction t generalizing l with
  | nil => simp [fullLines] at h
  | cons c r ih =>
    unfold fullLines at h
    split at h
    · rcases List.mem_cons.mp h with rfl | h
      · exact ⟨[], by simp, Or.inl rfl⟩
      · exact ih h
    · next hc =>
      split at h
      · obtain rfl := List.mem_singleton.mp h
        exact ⟨[c], by simpa using Ne.symm hc, Or.inr rfl⟩
      · next line more hr =>
        rcases List.mem_cons.mp h with rfl | h
        · obtain ⟨u, hu, hl⟩ := ih (l := line) (by rw [hr]; exact List.mem_cons_self)
          refine ⟨c :: u, by simpa [hu] using Ne.symm hc, ?_⟩
          rcases hl with rfl | rfl
          · exact Or.inl rfl
          · exact Or.inr rfl
        · exact ih (by rw [hr]; exact List.mem_cons_of_mem line h)

theorem dropEnding_subset (r : Text) : dropEnding (r ++ ['\n']) ⊆ r := by
  intro c hc
  unfold dropEnding at hc
  split at hc
  · next x hx =>
    have hr : r = x.reverse ++ ['\r'] := by
      have hx' : r.reverse = '\r' :: x := by simpa using hx
      rw [← List.reverse_reverse r, hx', List.reverse_cons]
    rw [hr]
    exact List.mem_append_left _ hc
  · next x _ hx =>
    have hr : r = x.reverse := by
      have hx' : r.reverse = x := by simpa using hx
      rw [← hx', List.reverse_reverse]
    rwa [hr]
  · next hn => exact absurd (by simp) (hn r.reverse)

/-- Without its ending a line has no line feed. -/
theorem notMem_lineFeed_dropEnding (h : l ∈ fullLines t) : '\n' ∉ dropEnding l := by
  obtain ⟨u, hu, rfl | rfl⟩ := exists_of_mem_fullLines h
  · exact fun hm => hu (dropEnding_subset u hm)
  · rwa [dropEnding_eq_self hu]

theorem notMem_lineFeed_of_mem_lines (h : l ∈ lines t) : '\n' ∉ l := by
  obtain ⟨m, hm, rfl⟩ := List.mem_map.mp h
  exact notMem_lineFeed_dropEnding hm

theorem notMem_lineFeed_of_mem_rawLines (h : l ∈ rawLines t) : '\n' ∉ l := by
  obtain ⟨m, hm, rfl⟩ := List.mem_map.mp h
  obtain ⟨u, hu, rfl | rfl⟩ := exists_of_mem_fullLines hm
  · rwa [dropLineFeed_concat]
  · rwa [dropLineFeed_eq_self hu]

end Text

end InterviewPlan
