import InterviewPlan.Proofs.Script.LineEndings
import InterviewPlan.Proofs.Script.NestedBlock

/-!
# Which header has its script found

A header has a script if the first line below it that is not blank is indented further than the
header.  A block may have several headers, at several depths, and a script below any of them.  Two
of them are looked at: the first one that stands alone at the left margin, and the first one at any
depth.  A block has a plan exactly when one of these two has a script, so that an earlier header
without a script hides the script of a later one.

## Main definitions

* `Extract.HasScript`: a header and the lines below it, the first of which make up a script
* `Extract.IsFirst`: the first header of a kind

## Main results

* `Extract.isSome_withContent?`: a header has a script if lines are taken below it
* `Extract.exists_below?_iff`: the first header of a kind, found among the lines of a block
* `Script.isSome_extract_iff`: a block has a plan if one of the two headers has a script
* `Script.hidesScript_of_earlier_header`: headers that hide a script
-/

namespace InterviewPlan

open Text

namespace Text

variable {p : Text → Bool} {l : Text} {ls rest : List Text}

/-- Where dropping stops. -/
theorem dropWhile_eq_cons_iff :
    ls.dropWhile p = l :: rest ↔
      ∃ above, ls = above ++ l :: rest ∧ (∀ a ∈ above, p a = true) ∧ p l = false := by
  constructor
  · intro h
    refine ⟨ls.takeWhile p, ?_, fun a ha => List.mem_takeWhile_imp ha, ?_⟩
    · rw [← h, List.takeWhile_append_dropWhile]
    · have hhead := List.head?_dropWhile_not p ls
      rwa [h] at hhead
  · rintro ⟨above, rfl, habove, hl⟩
    rw [List.dropWhile_append_of_pos habove, List.dropWhile_cons_of_neg (by simp [hl])]

/-- A line without its line feed may keep a carriage return, which is part of its ending. -/
theorem dropLineFeed_eq (l : Text) :
    dropLineFeed l = dropEnding l ∨ dropLineFeed l = dropEnding l ++ ['\r'] := by
  obtain ⟨r, rfl⟩ : ∃ r, l = r.reverse := ⟨l.reverse, (List.reverse_reverse l).symm⟩
  unfold dropLineFeed dropEnding
  rw [List.reverse_reverse]
  rcases r with _ | ⟨c, _ | ⟨d, r⟩⟩
  · exact Or.inl rfl
  · by_cases hc : c = '\n' <;> simp [hc]
  · by_cases hc : c = '\n' <;> by_cases hd : d = '\r' <;> simp [hc, hd]

end Text

namespace Extract

variable {isHead : Text → Bool} {block header l : Text} {above rest : List Text}

/-! ### Headers with a script -/

/-- A header has a script if the first line below it that is not blank is indented further. -/
def HasScript (header : Text) (below : List Text) : Prop :=
  ∃ line ∈ below.find? (!isBlankText ·), indentOf header < indentOf line

instance (header : Text) (below : List Text) : Decidable (HasScript header below) :=
  inferInstanceAs
    (Decidable (∃ line ∈ below.find? (!isBlankText ·), indentOf header < indentOf line))

theorem hasScript_cons_of_blank (h : isBlankText l = true) :
    HasScript header (l :: rest) ↔ HasScript header rest := by
  rw [HasScript, List.find?_cons_of_neg (by simp [h])]
  rfl

theorem hasScript_cons_of_visible (h : isBlankText l = false) :
    HasScript header (l :: rest) ↔ indentOf header < indentOf l := by
  rw [HasScript, List.find?_cons_of_pos (by simp [h])]
  simp

/-- **A header has a script** if not all of the lines that are taken below it are blank. -/
theorem isSome_withContent? :
    (withContent? (rest.takeWhile fun line =>
      isBlankText line || decide (indentOf header < indentOf line))).isSome = true ↔
        HasScript header rest := by
  have hcontent : ∀ ls : List Text,
      (withContent? ls).isSome = true ↔ ∃ l ∈ ls, isBlankText l = false := by
    intro ls
    unfold withContent?
    split
    · next hall => simpa using hall
    · next hall => simpa using hall
  rw [hcontent]
  induction rest with
  | nil => simp [HasScript]
  | cons l rest ih =>
    cases hl : isBlankText l with
    | true =>
      refine Iff.trans ?_ (ih.trans (hasScript_cons_of_blank hl).symm)
      rw [List.takeWhile_cons_of_pos (by simp [hl])]
      simp [hl]
    | false =>
      rw [hasScript_cons_of_visible hl]
      by_cases hdeeper : indentOf header < indentOf l
      · rw [List.takeWhile_cons_of_pos (by simp [hdeeper])]
        exact iff_of_true ⟨l, List.mem_cons_self, hl⟩ hdeeper
      · rw [List.takeWhile_cons_of_neg (by simp [hl, hdeeper])]
        simp [hdeeper]

/-- The ending of a line does not matter for a script. -/
theorem hasScript_map (header : Text) (rest : List Text) :
    HasScript header (rest.map dropLineFeed) ↔ HasScript header (rest.map dropEnding) := by
  have hsame : ∀ l, isBlankText (dropLineFeed l) = isBlankText (dropEnding l) ∧
      indentOf (dropLineFeed l) = indentOf (dropEnding l) := by
    intro l
    rcases dropLineFeed_eq l with h | h
    · rw [h]
      exact ⟨rfl, rfl⟩
    · rw [h, indentOf_return]
      refine ⟨?_, rfl⟩
      rw [isBlankText, isBlankText, List.all_append]
      exact Bool.and_true _
  induction rest with
  | nil => rfl
  | cons l rest ih =>
    rw [List.map_cons, List.map_cons]
    cases hl : isBlankText (dropEnding l) with
    | true =>
      rw [hasScript_cons_of_blank hl, hasScript_cons_of_blank ((hsame l).1.trans hl)]
      exact ih
    | false =>
      rw [hasScript_cons_of_visible hl, hasScript_cons_of_visible ((hsame l).1.trans hl),
        (hsame l).2]

/-! ### The first header of a kind -/

/-- The first header of a kind: no line above it is one. -/
def IsFirst (isHead : Text → Bool) (above : List Text) (header : Text) : Prop :=
  isHead header = true ∧ ∀ l ∈ above, isHead l = false

/-- **The first header of a kind** has a script below it among the lines of the block. -/
theorem exists_below?_iff :
    (∃ x ∈ below? isHead block, HasScript x.1 x.2) ↔
      ∃ above header rest, rawLines block = above ++ header :: rest ∧ HasScript header rest ∧
        IsFirst isHead above header := by
  have hbelow : ∀ x, x ∈ below? isHead block ↔
      ∃ line rest, (fullLines block).dropWhile (fun l => !isHead (dropLineFeed l)) = line :: rest ∧
        (dropLineFeed line, rest.map dropEnding) = x := by
    intro x
    unfold below?
    split
    · next line rest h => simp [h]
    · next h => simp [h]
  constructor
  · rintro ⟨x, hx, hscript⟩
    obtain ⟨line, rest, hdrop, rfl⟩ := (hbelow x).mp hx
    obtain ⟨above, hlines, habove, hline⟩ := dropWhile_eq_cons_iff.mp hdrop
    refine ⟨above.map dropLineFeed, dropLineFeed line, rest.map dropLineFeed, ?_,
      (hasScript_map _ rest).mpr hscript, by simpa using hline, ?_⟩
    · rw [rawLines, hlines, List.map_append, List.map_cons]
    · intro l hl
      obtain ⟨m, hm, rfl⟩ := List.mem_map.mp hl
      simpa using habove m hm
  · rintro ⟨above, header, rest, hlines, hscript, hheader, habove⟩
    obtain ⟨ls, ms, hfull, rfl, hms⟩ := List.map_eq_append_iff.mp hlines
    obtain ⟨line, ms, rfl, rfl, rfl⟩ := List.map_eq_cons_iff.mp hms
    refine ⟨(dropLineFeed line, ms.map dropEnding), (hbelow _).mpr ⟨line, ms, ?_, rfl⟩,
      (hasScript_map _ ms).mp hscript⟩
    refine dropWhile_eq_cons_iff.mpr ⟨ls, hfull, fun l hl => ?_, by simp [hheader]⟩
    rw [habove _ (List.mem_map_of_mem hl)]
    rfl

/-- A script is found below the first header at the left margin if it has one. -/
theorem isSome_strictPayload?_iff :
    (strictPayload? block).isSome = true ↔
      ∃ x ∈ below? isStrictHeader block, HasScript x.1 x.2 := by
  have hpayload : ∀ x ∈ below? isStrictHeader block,
      (withContent? (x.2.takeWhile fun line =>
        isBlankText line || line.head?.any isIndent)).isSome = true ↔ HasScript x.1 x.2 := by
    intro x hx
    have hmargin : indentOf x.1 = 0 := indentOf_of_isStrictHeader (isHead_of_below? hx)
    simp only [any_head?_isIndent, ← hmargin]
    exact isSome_withContent?
  rw [strictPayload?, Option.bind_eq_bind, Option.isSome_bind, Option.any_eq_true]
  exact exists_congr fun x => and_congr_right fun hx => hpayload x hx

/-- A script is found below the first header at any depth if it has one. -/
theorem isSome_lenientPayload?_iff :
    (lenientPayload? block).isSome = true ↔ ∃ x ∈ below? isHeader block, HasScript x.1 x.2 := by
  rw [lenientPayload?, Option.bind_eq_bind, Option.isSome_bind, Option.any_eq_true]
  exact exists_congr fun x => and_congr_right fun _ => isSome_withContent?

end Extract

namespace Script

variable {block : Text}

theorem isSome_extract (block : Text) :
    (extract block).isSome = (Extract.payload? block).isSome := by
  rw [extract, Option.bind_eq_bind]
  cases Extract.payload? block <;> rfl

/-- **A block has a plan exactly when a header that is looked at has a script**: the first one that
stands alone at the left margin or the first one at any depth. -/
theorem isSome_extract_iff (block : Text) :
    (extract block).isSome = true ↔
      ∃ above header rest, rawLines block = above ++ header :: rest ∧
        Extract.HasScript header rest ∧
        (Extract.IsFirst Extract.isStrictHeader above header ∨
          Extract.IsFirst Extract.isHeader above header) := by
  rw [isSome_extract, Extract.payload?, Option.isSome_or, Bool.or_eq_true,
    Extract.isSome_strictPayload?_iff, Extract.isSome_lenientPayload?_iff,
    Extract.exists_below?_iff, Extract.exists_below?_iff]
  simp only [and_or_left, exists_or]

/-- A block with a header at the left margin that has no script, above one that has. -/
def emptyHeaderAbove : List Text :=
  ["id: o".toList, "code: |".toList, "code: |".toList, "  a".toList]

/-- A block with a header that has a value in its own line, above a nested one that has a script. -/
def inlineHeaderAbove : List Text :=
  ["metadata:".toList, "  code: x".toList, "interview_order:".toList, "  code: |".toList,
    "    a".toList]

/-- **An earlier header hides a script**: below a header of the block there is one, but the block
has no plan. -/
theorem hidesScript_of_earlier_header :
    (∃ above header rest, rawLines (unlines emptyHeaderAbove) = above ++ header :: rest ∧
        Extract.isHeader header = true ∧ Extract.HasScript header rest ∧
        (extract (unlines emptyHeaderAbove)).isSome = false) ∧
      ∃ above header rest, rawLines (unlines inlineHeaderAbove) = above ++ header :: rest ∧
        Extract.isHeader header = true ∧ Extract.HasScript header rest ∧
        (extract (unlines inlineHeaderAbove)).isSome = false := by
  refine ⟨⟨emptyHeaderAbove.take 2, "code: |".toList, ["  a".toList], ?_⟩,
    ⟨inlineHeaderAbove.take 3, "  code: |".toList, ["    a".toList], ?_⟩⟩ <;> decide +kernel

end Script

end InterviewPlan
