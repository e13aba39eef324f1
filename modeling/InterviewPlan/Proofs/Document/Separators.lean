import InterviewPlan.Document.Segment
import InterviewPlan.Proofs.Text.Lines

/-!
# Separator lines

A text that is put together from others has a separator line only if one of them has it inside, that
is, between two of its line feeds: where two texts meet, a line begins with the last line of the one
and ends with the first line of the other, and a single character besides blanks and hyphens is
enough for it to be no separator.

Texts without separator lines that are joined by them are the segments of the document again, each
at its own place.

## Main definitions

* `Document.IsUnbroken`, `Document.IsUnbrokenInside`: no line, or no inner line, is a separator
* `Document.Attaches`: a text that may follow any other without making its last line a separator
* `Span.Cuts`: a span that cuts a text out of a document

## Main results

* `Document.Attaches.append`: what attaches to texts that attach
* `Document.segments_joinWith`: the segments of joined texts
-/

namespace InterviewPlan

open Text

namespace Document

variable {s t l r z : Text} {c : Char}

/-! ### Lines that separate nothing -/

/-- A line with a character besides blanks and hyphens. -/
def IsMarked (l : Text) : Prop := ∃ c ∈ l, isBlank c = false ∧ c ≠ '-'

theorem IsMarked.append_left (h : IsMarked l) (s : Text) : IsMarked (s ++ l) := by
  obtain ⟨c, hc, hmark⟩ := h
  exact ⟨c, List.mem_append_right s hc, hmark⟩

/-- The visible characters of a separator are hyphens. -/
theorem isSeparator_of_isMarked (h : IsMarked l) : isSeparator l = false := by
  obtain ⟨c, hc, hvisible, hhyphen⟩ := h
  have hmem := mem_trim_of_mem hc hvisible
  rw [isSeparator, decide_eq_false_iff_not]
  intro heq
  rw [heq] at hmem
  exact hhyphen (by simpa using hmem)

/-- Blanks at the ends of a line do not matter. -/
theorem isSeparator_blank_append {b : Text} (hb : ∀ c ∈ b, isBlank c = true) (l : Text) :
    isSeparator (b ++ l) = isSeparator l := by
  rw [isSeparator, trim_blank_append hb, isSeparator]

theorem isSeparator_append_blank {e : Text} (he : ∀ c ∈ e, isBlank c = true) (l : Text) :
    isSeparator (l ++ e) = isSeparator l := by
  rw [isSeparator, trim_append_blank he, isSeparator]

/-! ### Texts without separators -/

/-- A text none of whose lines is a separator. -/
def IsUnbroken (t : Text) : Prop := ∀ l ∈ t.splitOn '\n', isSeparator l = false

/-- A text without a separator between two of its line feeds. -/
def IsUnbrokenInside (t : Text) : Prop :=
  ∀ l ∈ (t.splitOn '\n').tail.dropLast, isSeparator l = false

/-- A text without a separator before its last line feed. -/
def IsUnbrokenAbove (t : Text) : Prop := ∀ l ∈ (t.splitOn '\n').dropLast, isSeparator l = false

instance : Decidable (IsUnbrokenInside t) := inferInstanceAs (Decidable (∀ l ∈ _, _))

/-- A line is unbroken if it is no separator itself. -/
theorem isUnbroken_iff_of_notMem (hl : '\n' ∉ l) : IsUnbroken l ↔ isSeparator l = false := by
  rw [IsUnbroken, List.splitOn_eq_singleton hl]
  exact List.forall_mem_singleton

theorem isUnbroken_of_notMem (hl : '\n' ∉ l) (h : isSeparator l = false) : IsUnbroken l :=
  (isUnbroken_iff_of_notMem hl).mpr h

theorem isUnbroken_append (t r : Text) :
    IsUnbroken (t ++ '\n' :: r) ↔ IsUnbroken t ∧ IsUnbroken r := by
  rw [IsUnbroken, List.splitOn_append_cons_self]
  exact List.forall_mem_append

theorem isUnbrokenAbove_of_notMem (hl : '\n' ∉ l) : IsUnbrokenAbove l := by
  rw [IsUnbrokenAbove, List.splitOn_eq_singleton hl]
  exact nofun

theorem isUnbrokenAbove_cons (hl : '\n' ∉ l) (r : Text) :
    IsUnbrokenAbove (l ++ '\n' :: r) ↔ isSeparator l = false ∧ IsUnbrokenAbove r := by
  rw [IsUnbrokenAbove, List.splitOn_append_cons_self_of_not_mem hl,
    List.dropLast_cons_of_ne_nil (List.splitOn_ne_nil _ _)]
  exact List.forall_mem_cons

theorem isUnbrokenInside_cons (hl : '\n' ∉ l) (r : Text) :
    IsUnbrokenInside (l ++ '\n' :: r) ↔ IsUnbrokenAbove r := by
  rw [IsUnbrokenInside, List.splitOn_append_cons_self_of_not_mem hl]
  rfl

/-- Indentation breaks nothing. -/
theorem IsUnbroken.indent {b : Text} (hb : ∀ c ∈ b, isBlank c = true) (hfeed : '\n' ∉ b)
    (h : IsUnbroken t) : IsUnbroken (b ++ t) := by
  have hline : ∀ l, '\n' ∉ l → IsUnbroken l → IsUnbroken (b ++ l) := by
    intro l hl hunbroken
    rw [isUnbroken_iff_of_notMem hl] at hunbroken
    exact isUnbroken_of_notMem (by simp [hfeed, hl])
      ((isSeparator_blank_append hb l).trans hunbroken)
  induction t using lineInduction with
  | last l hl => exact hline l hl h
  | cons l r hl _ =>
    rw [isUnbroken_append] at h
    rw [← List.append_assoc, isUnbroken_append]
    exact ⟨hline l hl h.1, h.2⟩

/-! ### Texts that follow others -/

/-- A text that may follow any other: if it has a line feed, its first line is marked, and no
further line but the last is a separator. -/
inductive Attaches : Text → Prop
  | inline {t : Text} (h : '\n' ∉ t) : Attaches t
  | lines {l r : Text} (hl : '\n' ∉ l) (hmark : IsMarked l) (hr : IsUnbrokenAbove r) :
    Attaches (l ++ '\n' :: r)

theorem IsUnbrokenAbove.append (hs : IsUnbrokenAbove s) (ht : Attaches t) :
    IsUnbrokenAbove (s ++ t) := by
  induction s using lineInduction with
  | last l hl =>
    cases ht with
    | inline h => exact isUnbrokenAbove_of_notMem (by simp [hl, h])
    | lines hl' hmark hr =>
      rw [← List.append_assoc, isUnbrokenAbove_cons (by simp [hl, hl'])]
      exact ⟨isSeparator_of_isMarked (hmark.append_left l), hr⟩
  | cons l s hl ih =>
    rw [isUnbrokenAbove_cons hl] at hs
    rw [List.append_assoc, List.cons_append, isUnbrokenAbove_cons hl]
    exact ⟨hs.1, ih hs.2⟩

/-- **What attaches to a text that attaches** makes another one. -/
theorem Attaches.append (hs : Attaches s) (ht : Attaches t) : Attaches (s ++ t) := by
  cases hs with
  | inline hl =>
    cases ht with
    | inline h => exact .inline (by simp [hl, h])
    | lines hl' hmark hr =>
      rw [← List.append_assoc]
      exact .lines (by simp [hl, hl']) (hmark.append_left s) hr
  | lines hl hmark hr =>
    rw [List.append_assoc, List.cons_append]
    exact .lines hl hmark (hr.append ht)

theorem Attaches.isUnbrokenAbove (h : Attaches t) : IsUnbrokenAbove t := by
  cases h with
  | inline hl => exact isUnbrokenAbove_of_notMem hl
  | lines hl hmark hr => exact (isUnbrokenAbove_cons hl _).mpr ⟨isSeparator_of_isMarked hmark, hr⟩

/-- A mark at the end keeps the last line from being a separator. -/
theorem IsUnbrokenAbove.isUnbroken_append (h : IsUnbrokenAbove t) (hz : '\n' ∉ z)
    (hmark : IsMarked z) : IsUnbroken (t ++ z) := by
  induction t using lineInduction with
  | last l hl =>
    exact isUnbroken_of_notMem (by simp [hl, hz]) (isSeparator_of_isMarked (hmark.append_left l))
  | cons l r hl ih =>
    rw [isUnbrokenAbove_cons hl] at h
    rw [List.append_assoc, List.cons_append, Document.isUnbroken_append]
    exact ⟨isUnbroken_of_notMem hl h.1, ih h.2⟩

/-- Lines without separators, joined. -/
theorem isUnbroken_unlines {ls : List Text} (hne : ls ≠ []) (h : ∀ l ∈ ls, IsUnbroken l) :
    IsUnbroken (unlines ls) := by
  induction ls with
  | nil => exact absurd rfl hne
  | cons l ls ih =>
    cases ls with
    | nil => simpa [unlines_singleton] using h
    | cons m ls =>
      rw [unlines_cons l (List.cons_ne_nil m ls), isUnbroken_append]
      refine ⟨h l List.mem_cons_self, ih (List.cons_ne_nil m ls) ?_⟩
      intro x hx
      exact h x (List.mem_cons_of_mem l hx)

/-! ### Cutting at separators -/

theorem isSeparator_of_mem_fullLines (h : IsUnbroken t) :
    ∀ l ∈ fullLines t, isSeparator l = false := by
  induction t using lineInduction with
  | last l hl =>
    by_cases hne : l = []
    · rw [hne]
      exact nofun
    · rw [fullLines_eq_singleton hne hl]
      exact List.forall_mem_singleton.mpr ((isUnbroken_iff_of_notMem hl).mp h)
  | cons l r hl ih =>
    rw [isUnbroken_append, isUnbroken_iff_of_notMem hl] at h
    rw [fullLines_append hl, List.forall_mem_cons, isSeparator_append_blank (by simp)]
    exact ⟨h.1, ih h.2⟩

/-- Lines that separate nothing belong to the piece. -/
theorem pieces_append {ls : List Text} (h : ∀ l ∈ ls, isSeparator l = false) (start : Nat)
    (piece : Text) (rest : List Text) :
    pieces start piece (ls ++ rest) = pieces start (piece ++ ls.flatten) rest := by
  induction ls generalizing piece with
  | nil => simp
  | cons l ls ih =>
    obtain ⟨hl, hls⟩ := List.forall_mem_cons.mp h
    rw [List.cons_append, pieces, if_neg (by rw [hl]; decide), ih hls, List.flatten_cons,
      List.append_assoc]

/-- A text that stands as a segment: it is not empty, no end of it is blank, and it has no separator
line. -/
structure IsPiece (t : Text) : Prop where
  ne_nil : t ≠ []
  trim : trim t = t
  isUnbroken : IsUnbroken t

/-- Blanks behind a piece are not part of its segment. -/
theorem IsPiece.trimmed? {e : Text} (h : IsPiece t) (he : ∀ c ∈ e, isBlank c = true) (start : Nat) :
    trimmed? start (t ++ e) = some (t, ⟨start, start + byteSize t⟩) := by
  have htrim : Text.trim (t ++ e) = t := (trim_append_blank he t).trans h.trim
  have hblank : (t ++ e).takeWhile isBlank = [] := by
    obtain ⟨c, r, rfl, hc⟩ := exists_eq_cons_of_trim h.ne_nil h.trim
    rw [List.cons_append, List.takeWhile_cons_of_neg (by simp [hc])]
  have hne : t.isEmpty = false := by simpa using h.ne_nil
  rw [Document.trimmed?, htrim, hblank]
  simp [hne, byteSize]

/-- The line between two segments, with the line feed before it. -/
def separator : Text := "\n---\n".toList

end Document

/-- A span that cuts a text out of a document. -/
def Span.Cuts (span : Span) (document t : Text) : Prop :=
  ∃ before after, document = before ++ t ++ after ∧
    span = ⟨byteSize before, byteSize before + byteSize t⟩

theorem Text.byteSize_append (s t : Text) : byteSize (s ++ t) = byteSize s + byteSize t := by
  induction s with
  | nil => simp [byteSize]
  | cons c s ih => rw [List.cons_append, byteSize, byteSize, ih, Nat.add_assoc]

namespace Document

variable {ts : List Text}

/-- A text without separators is one piece. -/
theorem pieces_fullLines (h : IsUnbroken t) (start : Nat) :
    pieces start [] (fullLines t) = [(start, t)] := by
  have hpieces := pieces_append (isSeparator_of_mem_fullLines h) start [] []
  rwa [List.append_nil, List.nil_append, flatten_fullLines, pieces] at hpieces

/-- The first of several joined texts is a piece, with the line feed before the separator. -/
theorem pieces_joinWith_cons (h : IsUnbroken t) (before u : Text) (us : List Text) :
    pieces (byteSize before) [] (fullLines (joinWith separator (t :: u :: us))) =
      (byteSize before, t ++ ['\n']) ::
        pieces (byteSize (before ++ t ++ separator)) []
          (fullLines (joinWith separator (u :: us))) := by
  have hjoin : joinWith separator (t :: u :: us) =
      t ++ '\n' :: ("---\n".toList ++ joinWith separator (u :: us)) := by
    rw [joinWith_cons_cons, List.append_assoc]
    rfl
  have hunbroken : IsUnbroken (t ++ ['\n']) :=
    (isUnbroken_append t []).mpr ⟨h, isUnbroken_of_notMem (by simp) rfl⟩
  have hline : fullLines ("---\n".toList ++ joinWith separator (u :: us)) =
      "---\n".toList :: fullLines (joinWith separator (u :: us)) :=
    fullLines_append (l := "---".toList) (by decide) _
  have hsize : byteSize before + byteSize (t ++ ['\n']) + byteSize "---\n".toList =
      byteSize (before ++ t ++ separator) := by
    have hseparator : byteSize separator = byteSize ['\n'] + byteSize "---\n".toList := rfl
    simp only [byteSize_append]
    omega
  rw [hjoin, fullLines_append_lineFeed, pieces_append (isSeparator_of_mem_fullLines hunbroken),
    List.nil_append, flatten_fullLines, hline, pieces, if_pos (by decide), hsize]

/-- The pieces of joined texts that stand behind some other text. -/
theorem filterMap_pieces (hts : ∀ t ∈ ts, IsPiece t) (before : Text) :
    ∃ found, ((pieces (byteSize before) [] (fullLines (joinWith separator ts))).filterMap
          fun (start, piece) => trimmed? start piece) = found ∧
      found.map Prod.fst = ts ∧ ∀ x ∈ found, x.2.Cuts (before ++ joinWith separator ts) x.1 := by
  -- `before` is what has been cut so far, and the spans are counted from its beginning
  induction ts generalizing before with
  | nil => exact ⟨[], rfl, rfl, nofun⟩
  | cons t ts ih =>
    obtain ⟨ht, hrest⟩ := List.forall_mem_cons.mp hts
    cases ts with
    | nil =>
      have htrimmed := ht.trimmed? (e := []) (by simp) (byteSize before)
      rw [List.append_nil] at htrimmed
      rw [joinWith_singleton, pieces_fullLines ht.isUnbroken]
      refine ⟨[(t, ⟨byteSize before, byteSize before + byteSize t⟩)], ?_, rfl, ?_⟩
      · simp only [List.filterMap_cons, htrimmed, List.filterMap_nil]
      · intro x hx
        rw [List.mem_singleton.mp hx]
        exact ⟨before, [], by rw [List.append_nil], rfl⟩
    | cons u us =>
      obtain ⟨found, hfound, hmap, hcuts⟩ := ih hrest (before ++ t ++ separator)
      rw [pieces_joinWith_cons ht.isUnbroken]
      refine ⟨(t, ⟨byteSize before, byteSize before + byteSize t⟩) :: found, ?_, ?_, ?_⟩
      · have htrimmed := ht.trimmed? (e := ['\n']) (by simp) (byteSize before)
        simp only [List.filterMap_cons, htrimmed, hfound]
      · rw [List.map_cons, hmap]
      · rw [joinWith_cons_cons, List.forall_mem_cons]
        constructor
        · refine ⟨before, separator ++ joinWith separator (u :: us), ?_, rfl⟩
          simp only [List.append_assoc]
        · intro x hx
          have hcut := hcuts x hx
          rwa [List.append_assoc, List.append_assoc, ← List.append_assoc t] at hcut

/-- **Texts that are joined by separators are the segments** of the document, each at its place. -/
theorem segments_joinWith (hts : ∀ t ∈ ts, IsPiece t) :
    (segments (joinWith separator ts)).map Segment.text = ts ∧
      ∀ s ∈ segments (joinWith separator ts), s.span.Cuts (joinWith separator ts) s.text := by
  obtain ⟨found, hfound, hmap, hcuts⟩ := filterMap_pieces hts []
  have hsegments : segments (joinWith separator ts) =
      found.mapIdx fun position x => ⟨position, x.1, x.2⟩ :=
    congrArg (List.mapIdx _) hfound
  rw [hsegments]
  constructor
  · rw [← hmap]
    apply List.ext_getElem
    · simp
    · intro i h₁ h₂
      simp
  · intro s hs
    obtain ⟨i, hi, rfl⟩ := List.mem_mapIdx.mp hs
    exact hcuts _ (List.getElem_mem hi)

end Document

end InterviewPlan
