import InterviewPlan.Proofs.Document.Partition

/-!
# Documents joined by a separator

A document that is put together from two others with a separator line between them has the segments
of the one and then those of the other, as if the two had been cut apart from each other.  The line
feed before the separator adds at most a blank to the last piece of the first document, even where
that document ends in the middle of a separator line.

## Main definitions

* `Segment.shift`: a segment further down in a longer document

## Main results

* `Document.found_append_separator`: lines below a separator are cut on their own
* `Document.found_lineFeed`: a line feed at the end of a document adds no segment
* `Document.segments_append`: the segments of documents that are joined
-/

namespace InterviewPlan

open Text

/-- A segment further down: `count` segments and `bytes` bytes stand in front of it. -/
def Segment.shift (count bytes : Nat) (s : Segment) : Segment :=
  ⟨s.position + count, s.text, ⟨s.span.start + bytes, s.span.stop + bytes⟩⟩

namespace Document

variable {t e p : Text}

/-! ### Further down -/

/-- The segment of a piece that begins further down. -/
theorem trimmed?_add (bytes start : Nat) (p : Text) :
    trimmed? (start + bytes) p =
      (trimmed? start p).map fun x => (x.1, ⟨x.2.start + bytes, x.2.stop + bytes⟩) := by
  unfold trimmed?
  dsimp only
  split
  · rfl
  · simp only [Option.map_some, Option.some.injEq, Prod.mk.injEq, Span.mk.injEq, true_and]
    omega

/-- What is found among lines that begin further down. -/
theorem found_add (bytes start : Nat) (piece : Text) (ls : List Text) :
    found (start + bytes) piece ls =
      (found start piece ls).map fun x => (x.1, ⟨x.2.start + bytes, x.2.stop + bytes⟩) := by
  induction ls generalizing start piece with
  | nil =>
    rw [found_nil, found_nil, trimmed?_add]
    cases trimmed? start piece <;> rfl
  | cons l ls ih =>
    cases hl : isSeparator l with
    | true =>
      have hstart : start + bytes + byteSize piece + byteSize l =
          start + byteSize piece + byteSize l + bytes := by omega
      rw [found_cons_of_separator hl, found_cons_of_separator hl, hstart, ih, trimmed?_add,
        List.map_append]
      cases trimmed? start piece <;> rfl
    | false =>
      rw [found_cons_of_not_separator hl, found_cons_of_not_separator hl, ih]

/-! ### Where two documents meet -/

/-- Lines below a separator are cut on their own. -/
theorem found_append_separator {line : Text} (hline : isSeparator line = true) (start : Nat)
    (piece : Text) (ls rest : List Text) :
    found start piece (ls ++ line :: rest) =
      found start piece ls ++
        found (start + byteSize piece + byteSize ls.flatten + byteSize line) [] rest := by
  induction ls generalizing start piece with
  | nil =>
    rw [List.nil_append, found_cons_of_separator hline, found_nil]
    rfl
  | cons l ls ih =>
    cases hl : isSeparator l with
    | true =>
      have hstart : start + byteSize piece + byteSize l + byteSize [] + byteSize ls.flatten =
          start + byteSize piece + byteSize (l :: ls).flatten := by
        rw [List.flatten_cons, byteSize_append, byteSize]
        omega
      rw [List.cons_append, found_cons_of_separator hl, found_cons_of_separator hl, ih, hstart,
        List.append_assoc]
    | false =>
      have hstart : start + byteSize (piece ++ l) + byteSize ls.flatten =
          start + byteSize piece + byteSize (l :: ls).flatten := by
        rw [List.flatten_cons, byteSize_append, byteSize_append]
        omega
      rw [List.cons_append, found_cons_of_not_separator hl, found_cons_of_not_separator hl, ih,
        hstart]

/-- Blanks behind a piece are not part of its segment, and a piece of blanks has none. -/
theorem trimmed?_append (he : ∀ c ∈ e, isBlank c = true) (start : Nat) (p : Text) :
    trimmed? start (p ++ e) = trimmed? start p := by
  rcases exists_surround_of_piece p with hblank | ⟨b, t, f, rfl, hne, ht, hb, hf⟩
  · rw [trimmed?_eq_none hblank, trimmed?_eq_none (List.forall_mem_append.mpr ⟨hblank, he⟩)]
  · rw [List.append_assoc, trimmed?_surround hb (List.forall_mem_append.mpr ⟨hf, he⟩) hne ht,
      trimmed?_surround hb hf hne ht]

/-- **A line feed at the end of a document** adds no segment and changes none. -/
theorem found_lineFeed (start : Nat) (piece t : Text) :
    found start piece (fullLines (t ++ ['\n'])) = found start piece (fullLines t) := by
  have hfeed : ∀ c ∈ ['\n'], isBlank c = true := by simp
  have hline : ∀ l, isSeparator (l ++ ['\n']) = isSeparator l := isSeparator_append_blank hfeed
  induction t using lineInduction generalizing start piece with
  | last l hl =>
    by_cases hne : l = []
    · have hown : isSeparator ['\n'] = false := rfl
      have hlines : fullLines ['\n'] = [['\n']] := rfl
      rw [hne, List.nil_append, hlines, found_cons_of_not_separator hown, found_nil,
        trimmed?_append hfeed, fullLines, found_nil]
    rw [fullLines_append hl, fullLines_eq_singleton hne hl, fullLines]
    cases hl : isSeparator l with
    | true =>
      have hnil : ∀ n, trimmed? n [] = none := trimmed?_eq_none (by simp)
      rw [found_cons_of_separator hl, found_cons_of_separator (by rw [hline, hl]), found_nil,
        found_nil, hnil, hnil]
    | false =>
      rw [found_cons_of_not_separator hl, found_cons_of_not_separator (by rw [hline, hl]),
        found_nil, found_nil, ← List.append_assoc, trimmed?_append hfeed]
  | cons l r hl ih =>
    rw [List.append_assoc, List.cons_append, fullLines_append hl, fullLines_append hl]
    cases hl : isSeparator (l ++ ['\n']) with
    | true => rw [found_cons_of_separator hl, found_cons_of_separator hl, ih]
    | false => rw [found_cons_of_not_separator hl, found_cons_of_not_separator hl, ih]

/-- **The segments of documents that are joined** by a separator line are those of the first one,
and those of the second one further down: behind as many segments as the first has, and behind its
bytes and the five of the separator. -/
theorem segments_append (d₁ d₂ : Text) :
    segments (d₁ ++ separator ++ d₂) =
      segments d₁ ++
        (segments d₂).map (Segment.shift (segments d₁).length (byteSize d₁ + 5)) := by
  have hlines : fullLines (d₁ ++ separator ++ d₂) =
      fullLines (d₁ ++ ['\n']) ++ "---\n".toList :: fullLines d₂ := by
    have hline : '\n' ∉ "---".toList := by decide
    rw [List.append_assoc]
    exact (fullLines_append_lineFeed d₁ _).trans (congrArg _ (fullLines_append hline d₂))
  have hstart : 0 + byteSize [] + byteSize (fullLines (d₁ ++ ['\n'])).flatten +
      byteSize "---\n".toList = 0 + (byteSize d₁ + 5) := by
    have hfeed : byteSize ['\n'] = 1 := rfl
    have hline : byteSize "---\n".toList = 4 := rfl
    rw [flatten_fullLines, byteSize_append, hfeed, hline, byteSize]
    omega
  have hfound : found 0 [] (fullLines (d₁ ++ separator ++ d₂)) =
      found 0 [] (fullLines d₁) ++ (found 0 [] (fullLines d₂)).map fun x =>
        (x.1, ⟨x.2.start + (byteSize d₁ + 5), x.2.stop + (byteSize d₁ + 5)⟩) := by
    rw [hlines, found_append_separator (by decide), hstart, found_lineFeed, found_add]
  have hlength : (segments d₁).length = (found 0 [] (fullLines d₁)).length := by
    rw [segments_eq_found, List.length_mapIdx]
  rw [segments_eq_found (_ ++ _), hfound, List.mapIdx_append, hlength]
  congr 1
  apply List.ext_getElem
  · simp [segments_eq_found]
  · intro i h₁ h₂
    simp [segments_eq_found, Segment.shift]

end Document

end InterviewPlan
