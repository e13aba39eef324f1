import InterviewPlan.Proofs.Document.Separators
import InterviewPlan.Proofs.Document.Validation

/-!
# The partition of a document

Cutting a document at its separator lines loses nothing.  Each segment is cut out of the document by
its span, a separator line stands between any two of them, and every byte that is in no span is part
of a separator line or of a blank character.

The proof goes through the lines of the document up to the next separator line, again and again:
what stands above the separator is one piece, and a piece is its segment between blanks.

## Main definitions

* `Span.instMembershipNat`: the bytes of a span
* `Document.CutsSeparator`: a span that takes a whole separator line
* `Document.IsBlankAt`: a byte of a blank character
* `Document.Partitions`: what is known of the segments from some byte on

## Main results

* `Document.separatorInduction`: induction over the separators among some lines
* `Document.isUnbroken_surround`: blanks around a text make no line of it a separator
* `Document.segments_partition`: the segments of a document partition it
-/

namespace InterviewPlan

open Text

/-- The bytes of a span. -/
instance Span.instMembershipNat : Membership Nat Span :=
  ⟨fun span byte => span.start ≤ byte ∧ byte < span.stop⟩

namespace Document

variable {document before p after t b e l : Text} {ls above rest : List Text} {c : Char}
  {byte start : Nat}

/-- A span that takes a whole separator line of a document. -/
def CutsSeparator (document : Text) (span : Span) : Prop :=
  ∃ above line below, fullLines document = above ++ line :: below ∧ isSeparator line = true ∧
    span = ⟨byteSize above.flatten, byteSize above.flatten + byteSize line⟩

/-- A byte of a blank character of a document. -/
def IsBlankAt (document : Text) (byte : Nat) : Prop :=
  ∃ c span, isBlank c = true ∧ Span.Cuts span document [c] ∧ byte ∈ span

/-! ### Blanks around a text -/

/-- A blank in front of a text makes no line of it a separator. -/
theorem isUnbroken_cons (hc : isBlank c = true) (t : Text) :
    IsUnbroken (c :: t) ↔ IsUnbroken t := by
  by_cases hfeed : c = '\n'
  · have hempty : IsUnbroken [] := isUnbroken_of_notMem (by simp) rfl
    rw [hfeed, ← List.nil_append ('\n' :: t), isUnbroken_append]
    exact and_iff_right hempty
  · have hline : ∀ l, '\n' ∉ l → (IsUnbroken (c :: l) ↔ IsUnbroken l) := by
      intro l hl
      have hsame : isSeparator (c :: l) = isSeparator l :=
        isSeparator_blank_append (b := [c]) (by simpa using hc) l
      rw [isUnbroken_iff_of_notMem hl,
        isUnbroken_iff_of_notMem (by simp [hl, Ne.symm hfeed]), hsame]
    induction t using lineInduction with
    | last l hl => exact hline l hl
    | cons l r hl _ =>
      rw [← List.cons_append, isUnbroken_append, isUnbroken_append, hline l hl]

/-- So does a blank behind it. -/
theorem isUnbroken_concat (hc : isBlank c = true) (t : Text) :
    IsUnbroken (t ++ [c]) ↔ IsUnbroken t := by
  by_cases hfeed : c = '\n'
  · have hempty : IsUnbroken [] := isUnbroken_of_notMem (by simp) rfl
    rw [hfeed, isUnbroken_append]
    exact and_iff_left hempty
  · induction t using lineInduction with
    | last l hl =>
      rw [isUnbroken_iff_of_notMem hl, isUnbroken_iff_of_notMem (by simp [hl, Ne.symm hfeed]),
        isSeparator_append_blank (by simpa using hc)]
    | cons l r hl ih =>
      rw [List.append_assoc, List.cons_append, isUnbroken_append, isUnbroken_append, ih]

/-- **Blanks around a text** make no line of it a separator. -/
theorem isUnbroken_surround (hb : ∀ c ∈ b, isBlank c = true) (he : ∀ c ∈ e, isBlank c = true)
    (t : Text) : IsUnbroken (b ++ t ++ e) ↔ IsUnbroken t := by
  have hback : ∀ s, IsUnbroken (s ++ e) ↔ IsUnbroken s := by
    intro s
    induction e using List.reverseRecOn with
    | nil => rw [List.append_nil]
    | append_singleton e c ih =>
      obtain ⟨he, hc⟩ := List.forall_mem_append.mp he
      rw [← List.append_assoc, isUnbroken_concat (hc c List.mem_cons_self), ih he]
  rw [hback]
  induction b with
  | nil => rfl
  | cons c b ih =>
    obtain ⟨hc, hb⟩ := List.forall_mem_cons.mp hb
    exact (isUnbroken_cons hc (b ++ t)).trans (ih hb)

/-! ### One piece -/

theorem trimmed?_eq_none (h : ∀ c ∈ p, isBlank c = true) (start : Nat) :
    trimmed? start p = none := by
  rw [trimmed?, trim_eq_nil_iff.mpr h]
  rfl

/-- The segment of a piece is what stands between its outer blanks. -/
theorem trimmed?_surround (hb : ∀ c ∈ b, isBlank c = true) (he : ∀ c ∈ e, isBlank c = true)
    (hne : t ≠ []) (ht : trim t = t) (start : Nat) :
    trimmed? start (b ++ t ++ e) =
      some (t, ⟨start + byteSize b, start + byteSize b + byteSize t⟩) := by
  have hblank : (b ++ t ++ e).takeWhile isBlank = b := by
    obtain ⟨c, r, rfl, hc⟩ := exists_eq_cons_of_trim hne ht
    rw [List.append_assoc, List.takeWhile_append_of_pos hb, List.cons_append,
      List.takeWhile_cons_of_neg (by simp [hc]), List.append_nil]
  rw [trimmed?, trim_surround hb he, ht, hblank, if_neg (by simpa using hne)]

/-- A piece is blank, or it is its segment between blanks. -/
theorem exists_surround_of_piece (p : Text) :
    (∀ c ∈ p, isBlank c = true) ∨
      ∃ b t e, p = b ++ t ++ e ∧ t ≠ [] ∧ trim t = t ∧ (∀ c ∈ b, isBlank c = true) ∧
        ∀ c ∈ e, isBlank c = true := by
  obtain ⟨b, e, hp, hb, he⟩ := exists_surround p
  by_cases hne : trim p = []
  · exact Or.inl (trim_eq_nil_iff.mp hne)
  · exact Or.inr ⟨b, trim p, e, hp, hne, trim_trim p, hb, he⟩

/-- A byte of a blank text is a byte of a blank character. -/
theorem isBlankAt_of_forall (hdocument : document = before ++ b ++ after)
    (hb : ∀ c ∈ b, isBlank c = true) (hfirst : byteSize before ≤ byte)
    (hlast : byte < byteSize (before ++ b)) : IsBlankAt document byte := by
  induction b generalizing before with
  | nil =>
    rw [List.append_nil] at hlast
    omega
  | cons c b ih =>
    obtain ⟨hc, hb⟩ := List.forall_mem_cons.mp hb
    by_cases hin : byte < byteSize (before ++ [c])
    · refine ⟨c, ⟨byteSize before, byteSize before + byteSize [c]⟩, hc, ?_, hfirst, ?_⟩
      · exact ⟨before, b ++ after, by rw [hdocument]; simp, rfl⟩
      · rwa [byteSize_append] at hin
    · have hrest : document = before ++ [c] ++ b ++ after := by
        rw [hdocument]
        simp
      exact ih hrest hb (by omega) (by rwa [List.append_assoc])

/-- **A piece and its segment**: the segment is cut out of the document within the piece, and the
rest of the piece is blank. -/
theorem trimmed?_spec (hdocument : document = before ++ p ++ after) (hp : IsUnbroken p) :
    (∀ x ∈ trimmed? (byteSize before) p, IsPiece x.1 ∧ x.2.Cuts document x.1 ∧
        byteSize before ≤ x.2.start ∧ x.2.stop ≤ byteSize (before ++ p)) ∧
      ∀ byte, byteSize before ≤ byte → byte < byteSize (before ++ p) →
        (∃ x ∈ trimmed? (byteSize before) p, byte ∈ x.2) ∨ IsBlankAt document byte := by
  rcases exists_surround_of_piece p with hblank | ⟨b, t, e, rfl, hne, ht, hb, he⟩
  · rw [trimmed?_eq_none hblank]
    exact ⟨nofun, fun byte hfirst hlast =>
      Or.inr (isBlankAt_of_forall hdocument hblank hfirst hlast)⟩
  rw [trimmed?_surround hb he hne ht, ← byteSize_append, ← byteSize_append]
  constructor
  · intro x hx
    obtain rfl := Option.some.inj hx
    refine ⟨⟨hne, ht, (isUnbroken_surround hb he t).mp hp⟩, ?_, ?_, ?_⟩
    · refine ⟨before ++ b, e ++ after, by rw [hdocument]; simp, ?_⟩
      rw [← byteSize_append]
    · simp only [byteSize_append]
      omega
    · simp only [byteSize_append]
      omega
  · intro byte hfirst hlast
    have hleft : document = before ++ b ++ (t ++ e ++ after) := by
      rw [hdocument]
      simp
    have hright : document = before ++ b ++ t ++ e ++ after := by
      rw [hdocument]
      simp
    by_cases hfront : byte < byteSize (before ++ b)
    · exact Or.inr (isBlankAt_of_forall hleft hb hfirst hfront)
    by_cases hin : byte < byteSize (before ++ b ++ t)
    · exact Or.inl ⟨_, rfl, by simpa using hfront, hin⟩
    · exact Or.inr (isBlankAt_of_forall hright he (by omega) (by simpa using hlast))

/-! ### What is found among some lines -/

/-- The segments that are found among some lines, without their numbers.  `piece` has been read
since the byte `start`. -/
def found (start : Nat) (piece : Text) (ls : List Text) : List (Text × Span) :=
  (pieces start piece ls).filterMap fun x => trimmed? x.1 x.2

theorem segments_eq_found (document : Text) :
    segments document =
      (found 0 [] (fullLines document)).mapIdx fun position x => ⟨position, x.1, x.2⟩ :=
  rfl

theorem found_nil (start : Nat) (piece : Text) :
    found start piece [] = (trimmed? start piece).toList := by
  rw [found, pieces, List.filterMap_cons]
  cases trimmed? start piece <;> rfl

/-- A separator line ends a piece. -/
theorem found_cons_of_separator (hl : isSeparator l = true) (start : Nat) (piece : Text)
    (rest : List Text) :
    found start piece (l :: rest) =
      (trimmed? start piece).toList ++ found (start + byteSize piece + byteSize l) [] rest := by
  rw [found, pieces, if_pos hl, List.filterMap_cons]
  cases trimmed? start piece <;> rfl

/-- Any other line belongs to it. -/
theorem found_cons_of_not_separator (hl : isSeparator l = false) (start : Nat) (piece : Text)
    (rest : List Text) : found start piece (l :: rest) = found start (piece ++ l) rest := by
  rw [found, pieces, if_neg (by rw [hl]; decide)]
  rfl

theorem found_append (hls : ∀ l ∈ ls, isSeparator l = false) (start : Nat) (piece : Text)
    (rest : List Text) :
    found start piece (ls ++ rest) = found start (piece ++ ls.flatten) rest := by
  rw [found, pieces_append hls]
  rfl

/-! ### The lines of a document -/

/-- **Induction over the separators among some lines**: none of the lines is one, or some lines that
are none stand above the first. -/
@[elab_as_elim]
theorem separatorInduction {motive : List Text → Prop}
    (last : ∀ ls, (∀ l ∈ ls, isSeparator l = false) → motive ls)
    (cons : ∀ ls line rest, (∀ l ∈ ls, isSeparator l = false) → isSeparator line = true →
      motive rest → motive (ls ++ line :: rest)) (ls : List Text) : motive ls := by
  by_cases h : ∀ l ∈ ls, isSeparator l = false
  · exact last ls h
  · have hdrop : ls.dropWhile (!isSeparator ·) ≠ [] := by
      simpa [List.dropWhile_eq_nil_iff] using h
    obtain ⟨line, rest, hrest⟩ := List.exists_cons_of_ne_nil hdrop
    have hline : isSeparator line = true := by
      have hhead := List.head?_dropWhile_not (!isSeparator ·) ls
      simpa [hrest] using hhead
    have happend := List.takeWhile_append_dropWhile (p := (!isSeparator ·)) (l := ls)
    rw [hrest] at happend
    have hlength : rest.length < ls.length := by
      rw [← happend, List.length_append, List.length_cons]
      omega
    rw [← happend]
    refine cons _ line rest ?_ hline (separatorInduction last cons rest)
    intro l hl
    simpa using List.mem_takeWhile_imp hl
termination_by ls.length

/-- The lines of a document that stand above some of its lines, and those below, are the lines of
what they join to. -/
theorem fullLines_flatten_append (h : fullLines document = above ++ rest) :
    fullLines above.flatten = above ∧ fullLines rest.flatten = rest := by
  induction document using lineInduction generalizing above with
  | last l hl =>
    by_cases hne : l = []
    · rw [hne, fullLines, eq_comm, List.append_eq_nil_iff] at h
      rw [h.1, h.2]
      exact ⟨rfl, rfl⟩
    · rw [fullLines_eq_singleton hne hl, eq_comm, List.append_eq_singleton_iff] at h
      rcases h with ⟨rfl, rfl⟩ | ⟨rfl, rfl⟩ <;> simp [fullLines, fullLines_eq_singleton hne hl]
  | cons l r hl ih =>
    rw [fullLines_append hl] at h
    cases above with
    | nil =>
      rw [List.nil_append] at h
      rw [← h, List.flatten_cons, flatten_fullLines, List.append_assoc, List.singleton_append,
        fullLines_append hl]
      exact ⟨rfl, rfl⟩
    | cons m above =>
      obtain ⟨rfl, hrest⟩ := List.cons.inj h
      obtain ⟨habove, hbelow⟩ := ih hrest
      rw [List.flatten_cons, List.append_assoc, List.singleton_append, fullLines_append hl, habove]
      exact ⟨rfl, hbelow⟩

/-- Lines that separate nothing join to a text without separators. -/
theorem isUnbroken_of_fullLines (h : ∀ l ∈ fullLines t, isSeparator l = false) : IsUnbroken t := by
  induction t using lineInduction with
  | last l hl =>
    by_cases hne : l = []
    · rw [hne]
      exact isUnbroken_of_notMem (by simp) rfl
    · rw [fullLines_eq_singleton hne hl] at h
      exact isUnbroken_of_notMem hl (h l List.mem_cons_self)
  | cons l r hl ih =>
    rw [fullLines_append hl, List.forall_mem_cons, isSeparator_append_blank (by simp)] at h
    exact (isUnbroken_append l r).mpr ⟨isUnbroken_of_notMem hl h.1, ih h.2⟩

/-! ### The segments -/

/-- What is known of the segments that are found in a document from some byte on. -/
structure Partitions (document : Text) (first : Nat) (segs : List (Text × Span)) : Prop where
  cuts : ∀ x ∈ segs, IsPiece x.1 ∧ x.2.Cuts document x.1 ∧ first ≤ x.2.start
  separated : segs.Pairwise fun x y =>
    ∃ line, CutsSeparator document line ∧ x.2.stop ≤ line.start ∧ line.stop ≤ y.2.start
  covers : ∀ byte, first ≤ byte → byte < byteSize document →
    (∃ x ∈ segs, byte ∈ x.2) ∨ (∃ line, CutsSeparator document line ∧ byte ∈ line) ∨
      IsBlankAt document byte

/-- The last piece of a document. -/
theorem partitions_last (hdocument : document = before ++ p) (hp : IsUnbroken p) :
    Partitions document (byteSize before) (trimmed? (byteSize before) p).toList := by
  have hrest : document = before ++ p ++ [] := by rwa [List.append_nil]
  obtain ⟨hcuts, hcovers⟩ := trimmed?_spec hrest hp
  refine ⟨?_, ?_, ?_⟩
  · intro x hx
    obtain ⟨hpiece, hcut, hfirst, -⟩ := hcuts x (Option.mem_toList.mp hx)
    exact ⟨hpiece, hcut, hfirst⟩
  · cases trimmed? (byteSize before) p <;> simp
  · intro byte hfirst hlast
    rcases hcovers byte hfirst (by rwa [← hdocument]) with ⟨x, hx, hbyte⟩ | hblank
    · exact Or.inl ⟨x, Option.mem_toList.mpr hx, hbyte⟩
    · exact Or.inr (Or.inr hblank)

/-- A piece and the separator line below it, in front of what has been found further down. -/
theorem Partitions.cons {segs : List (Text × Span)} {line : Text}
    (h : Partitions document (byteSize (above ++ ls ++ [line]).flatten) segs)
    (hlines : fullLines document = above ++ (ls ++ line :: rest))
    (hls : ∀ l ∈ ls, isSeparator l = false) (hline : isSeparator line = true) :
    Partitions document (byteSize above.flatten)
      ((trimmed? (byteSize above.flatten) ls.flatten).toList ++ segs) := by
  have hdocument : document = above.flatten ++ ls.flatten ++ (line ++ rest.flatten) := by
    rw [← flatten_fullLines document, hlines]
    simp
  have hunbroken : IsUnbroken ls.flatten := by
    apply isUnbroken_of_fullLines
    have hrest := (fullLines_flatten_append hlines).2
    rwa [(fullLines_flatten_append hrest).1]
  obtain ⟨hcuts, hcovers⟩ := trimmed?_spec hdocument hunbroken
  have hseparator : CutsSeparator document
      ⟨byteSize (above ++ ls).flatten, byteSize (above ++ ls).flatten + byteSize line⟩ :=
    ⟨above ++ ls, line, rest, by rw [hlines, List.append_assoc], hline, rfl⟩
  have hend : byteSize (above ++ ls ++ [line]).flatten =
      byteSize (above ++ ls).flatten + byteSize line := by
    rw [List.flatten_append, List.flatten_singleton, byteSize_append]
  rw [hend] at h
  have hflatten : above.flatten ++ ls.flatten = (above ++ ls).flatten := List.flatten_append.symm
  rw [hflatten] at hcuts hcovers
  have hstart : byteSize above.flatten ≤ byteSize (above ++ ls).flatten := by
    rw [List.flatten_append, byteSize_append]
    omega
  refine ⟨?_, ?_, ?_⟩
  · rw [List.forall_mem_append]
    constructor
    · intro x hx
      obtain ⟨hpiece, hcut, hfirst, -⟩ := hcuts x (Option.mem_toList.mp hx)
      exact ⟨hpiece, hcut, hfirst⟩
    · intro x hx
      obtain ⟨hpiece, hcut, hfirst⟩ := h.cuts x hx
      exact ⟨hpiece, hcut, by omega⟩
  · rw [List.pairwise_append]
    refine ⟨?_, h.separated, ?_⟩
    · cases trimmed? (byteSize above.flatten) ls.flatten <;> simp
    · intro x hx y hy
      exact ⟨_, hseparator, (hcuts x (Option.mem_toList.mp hx)).2.2.2, (h.cuts y hy).2.2⟩
  · intro byte hfirst hlast
    by_cases hpiece : byte < byteSize (above ++ ls).flatten
    · rcases hcovers byte hfirst hpiece with ⟨x, hx, hbyte⟩ | hblank
      · exact Or.inl ⟨x, List.mem_append_left _ (Option.mem_toList.mpr hx), hbyte⟩
      · exact Or.inr (Or.inr hblank)
    by_cases hin : byte < byteSize (above ++ ls).flatten + byteSize line
    · exact Or.inr (Or.inl ⟨_, hseparator, by simpa using hpiece, hin⟩)
    · rcases h.covers byte (by omega) hlast with ⟨x, hx, hbyte⟩ | hrest
      · exact Or.inl ⟨x, List.mem_append_right _ hx, hbyte⟩
      · exact Or.inr hrest

/-- The segments that are found among the lines below some others. -/
theorem partitions_found (hlines : fullLines document = above ++ ls) :
    Partitions document (byteSize above.flatten) (found (byteSize above.flatten) [] ls) := by
  -- `above` is what has been cut so far
  induction ls using separatorInduction generalizing above with
  | last ls hls =>
    have hdocument : document = above.flatten ++ ls.flatten := by
      rw [← flatten_fullLines document, hlines, List.flatten_append]
    have hunbroken : IsUnbroken ls.flatten := by
      apply isUnbroken_of_fullLines
      rwa [(fullLines_flatten_append hlines).2]
    have hfound := found_append hls (byteSize above.flatten) [] []
    rw [List.append_nil, List.nil_append, found_nil] at hfound
    rw [hfound]
    exact partitions_last hdocument hunbroken
  | cons ls line rest hls hline ih =>
    have hrest := @ih (above ++ ls ++ [line]) (by rw [hlines]; simp)
    have hend : byteSize above.flatten + byteSize ls.flatten + byteSize line =
        byteSize (above ++ ls ++ [line]).flatten := by
      simp only [List.flatten_append, List.flatten_singleton, byteSize_append]
    rw [found_append hls, List.nil_append, found_cons_of_separator hline, hend]
    exact hrest.cons hlines hls hline

/-- **The segments of a document partition it.**  They are numbered from zero.  Each is a text
without outer blanks and without separator lines that its span cuts out of the document; between any
two of them, in the order in which they stand, there is a whole separator line; and every byte of
the document is in the span of one of them, in a separator line or in a blank character. -/
theorem segments_partition (document : Text) :
    (segments document).map Segment.position = List.range (segments document).length ∧
      (∀ s ∈ segments document, IsPiece s.text ∧ s.span.Cuts document s.text) ∧
      ((segments document).Pairwise fun s t =>
        ∃ line, CutsSeparator document line ∧ s.span.stop ≤ line.start ∧
          line.stop ≤ t.span.start) ∧
      ∀ byte < byteSize document,
        (∃ s ∈ segments document, byte ∈ s.span) ∨
          (∃ line, CutsSeparator document line ∧ byte ∈ line) ∨ IsBlankAt document byte := by
  have h := @partitions_found document (fullLines document) [] (List.nil_append _).symm
  have hpairs : (segments document).map (fun s => (s.text, s.span)) =
      found 0 [] (fullLines document) := by
    apply List.ext_getElem
    · simp [segments_eq_found]
    · intro i h₁ h₂
      simp [segments_eq_found]
  rw [List.flatten_nil, byteSize, ← hpairs] at h
  refine ⟨position_segments document, ?_, ?_, ?_⟩
  · intro s hs
    obtain ⟨hpiece, hcut, -⟩ := h.cuts _ (List.mem_map_of_mem hs)
    exact ⟨hpiece, hcut⟩
  · exact List.pairwise_map.mp h.separated
  · intro byte hbyte
    rcases h.covers byte (Nat.zero_le byte) hbyte with ⟨x, hx, hin⟩ | hrest
    · obtain ⟨s, hs, rfl⟩ := List.mem_map.mp hx
      exact Or.inl ⟨s, hs, hin⟩
    · exact Or.inr hrest

end Document

end InterviewPlan
