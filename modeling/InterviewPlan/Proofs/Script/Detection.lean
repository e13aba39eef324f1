import InterviewPlan.Proofs.Script.Extraction

/-!
# What is recognised as the order block

A banner is a title between two frames, runs of at least three decorative characters, with blanks
allowed around the title.  The title is `interview` and `order` in any case, with a gap of one or
more characters between them.  A text is searched at each place where three decorative characters
stand, and blanks and gaps are dropped as far as they go.  This finds every banner: of the first
frame the last three characters are enough and of the second the first three, and what is dropped
ends where it has to, since a letter or a decorative character ends the blanks and a letter the gap.

## Main definitions

* `Detect.IsTitle`, `Detect.IsFrame`, `Detect.IsBanner`: the grammar of banners

## Main results

* `Detect.afterTitle?_eq_some_iff`: what follows a title at the front
* `Detect.exists_isBanner_of_startsBanner`, `Detect.exists_startsBanner_of_isBanner`: what is tested
  at one place, and that a banner passes the test at a place inside it
* `Detect.hasBanner_iff`, `Detect.hasPhrase_iff`: banners and phrases are found wherever they stand
* `Detect.isOrder_iff`: exactly which blocks are recognised
-/

namespace InterviewPlan

open Text

namespace Text

variable {c : Char} {start t r : Text}

/-- A character is no blank if its lower case is none. -/
theorem isBlank_of_toLower (h : isBlank c.toLower = false) : isBlank c = false := by
  refine Bool.eq_false_iff.mpr fun hblank => ?_
  have hupper : c.isUpper = false := by
    refine Bool.eq_false_iff.mpr fun hu => ?_
    have hword : Flag.isWordChar c = true := by
      delta Flag.isWordChar Char.isAlphanum Char.isAlpha
      rw [hu, Bool.true_or, Bool.true_or]
    rw [Flag.isBlank_of_isWordChar hword] at hblank
    cases hblank
  rw [Flag.toLower_eq_self hupper, hblank] at h
  cases h

/-- What is dropped from the front ends where `p` does. -/
theorem dropWhile_append_of_head? {p : Char → Bool} (ht : ∀ c ∈ t, p c = true)
    (hr : r.head?.any p = false) : (t ++ r).dropWhile p = r := by
  rw [List.dropWhile_append_of_pos ht, dropWhile_of_head? hr]

/-- What follows a text in either case. -/
theorem afterIgnoringCase?_eq_some_iff :
    afterIgnoringCase? start t = some r ↔ ∃ u, t = u ++ r ∧ lower u = start := by
  unfold afterIgnoringCase?
  constructor
  · intro h
    split at h
    · next hstart =>
      obtain rfl := Option.some.inj h
      exact ⟨t.take start.length, (List.take_append_drop _ t).symm, hstart⟩
    · cases h
  · rintro ⟨u, rfl, rfl⟩
    have hlength : (lower u).length = u.length := List.length_map _
    rw [hlength, List.take_left, if_pos rfl, List.drop_left]

end Text

namespace Detect

variable {isGap : Char → Bool} {t r : Text}

/-! ### Titles -/

/-- A title: `interview` and `order` in any case, with a gap of one or more characters between
them. -/
def IsTitle (isGap : Char → Bool) (t : Text) : Prop :=
  ∃ first gap second, t = first ++ gap ++ second ∧ lower first = "interview".toList ∧ gap ≠ [] ∧
    (∀ c ∈ gap, isGap c = true) ∧ lower second = "order".toList

/-- The first letter of a word of a title. -/
theorem exists_cons_of_lower {u : Text} {a : Char} {s : Text} (h : lower u = a :: s) :
    ∃ c v, u = c :: v ∧ c.toLower = a := by
  obtain ⟨c, v, rfl, hc, -⟩ := List.map_eq_cons_iff.mp h
  exact ⟨c, v, rfl, hc⟩

/-- **What follows a title at the front**, if a gap does not begin with the second word. -/
theorem afterTitle?_eq_some_iff (hgap : ∀ c, c.toLower = 'o' → isGap c = false) :
    afterTitle? isGap t = some r ↔ ∃ title, t = title ++ r ∧ IsTitle isGap title := by
  unfold afterTitle?
  rw [Option.bind_eq_bind, Option.bind_eq_some_iff]
  constructor
  · rintro ⟨s, hs, h⟩
    obtain ⟨first, rfl, hfirst⟩ := afterIgnoringCase?_eq_some_iff.mp hs
    split at h
    · next hhead =>
      obtain ⟨second, hsecond, horder⟩ := afterIgnoringCase?_eq_some_iff.mp h
      refine ⟨first ++ s.takeWhile isGap ++ second, ?_, first, s.takeWhile isGap, second, rfl,
        hfirst, ?_, fun c hc => List.mem_takeWhile_imp hc, horder⟩
      · rw [List.append_assoc, List.append_assoc, ← hsecond, List.takeWhile_append_dropWhile]
      · cases s with
        | nil => cases hhead
        | cons c s =>
          have hc : isGap c = true := hhead
          rw [List.takeWhile_cons_of_pos hc]
          exact List.cons_ne_nil _ _
    · cases h
  · rintro ⟨-, rfl, first, gap, second, rfl, hfirst, hne, hall, horder⟩
    refine ⟨gap ++ (second ++ r), afterIgnoringCase?_eq_some_iff.mpr ⟨first, by simp, hfirst⟩, ?_⟩
    obtain ⟨g, gap', rfl⟩ := List.exists_cons_of_ne_nil hne
    have hhead : ((g :: gap') ++ (second ++ r)).head?.any isGap = true :=
      hall g List.mem_cons_self
    have hstop : (second ++ r).head?.any isGap = false := by
      obtain ⟨c, v, rfl, hc⟩ := exists_cons_of_lower horder
      exact hgap c hc
    rw [if_pos hhead, dropWhile_append_of_head? hall hstop]
    exact afterIgnoringCase?_eq_some_iff.mpr ⟨second, rfl, horder⟩

theorem IsTitle.exists_cons (h : IsTitle isGap t) : ∃ c v, t = c :: v ∧ c.toLower = 'i' := by
  obtain ⟨first, gap, second, rfl, hfirst, -⟩ := h
  obtain ⟨c, v, rfl, hc⟩ := exists_cons_of_lower hfirst
  exact ⟨c, v ++ gap ++ second, rfl, hc⟩

theorem isWordGap_of_toLower {c : Char} (h : c.toLower = 'o') : isWordGap c = false := by
  rw [isWordGap, Bool.or_eq_false_iff, Bool.or_eq_false_iff, beq_eq_false_iff_ne,
    beq_eq_false_iff_ne]
  refine ⟨⟨isBlank_of_toLower (h ▸ rfl), ?_⟩, ?_⟩
  · rintro rfl
    cases h
  · rintro rfl
    cases h

/-! ### Banners -/

/-- A run of at least three decorative characters. -/
def IsFrame (t : Text) : Prop := 3 ≤ t.length ∧ ∀ c ∈ t, isDecoration c = true

/-- A banner: a title between two frames, with blanks allowed around the title. -/
def IsBanner (t : Text) : Prop :=
  ∃ left before title after right, t = left ++ (before ++ (title ++ (after ++ right))) ∧
    IsFrame left ∧ (∀ c ∈ before, isBlank c = true) ∧ IsTitle isWordGap title ∧
    (∀ c ∈ after, isBlank c = true) ∧ IsFrame right

theorem not_isBlank_of_isDecoration {c : Char} (h : isDecoration c = true) : isBlank c = false := by
  simp only [isDecoration, Bool.or_eq_true, beq_iff_eq] at h
  rcases h with ((rfl | rfl) | rfl) | rfl <;> decide

theorem afterDecoration?_eq_some_iff :
    afterDecoration? t = some r ↔
      ∃ f, t = f ++ r ∧ f.length = 3 ∧ ∀ c ∈ f, isDecoration c = true := by
  unfold afterDecoration?
  constructor
  · intro h
    split at h
    · next a b c s =>
      split at h
      · next hall =>
        obtain rfl := Option.some.inj h
        exact ⟨[a, b, c], rfl, rfl, List.all_eq_true.mp hall⟩
      · cases h
    · cases h
  · rintro ⟨f, rfl, hlength, hall⟩
    obtain ⟨a, b, c, rfl⟩ := List.length_eq_three.mp hlength
    exact if_pos (List.all_eq_true.mpr hall)

/-- What begins at the front is a banner. -/
theorem exists_isBanner_of_startsBanner (h : startsBanner t = true) :
    ∃ b, IsBanner b ∧ b <+: t := by
  obtain ⟨r, hr⟩ := Option.isSome_iff_exists.mp h
  rw [Option.bind_eq_bind, Option.bind_eq_some_iff] at hr
  obtain ⟨s, hleft, hr⟩ := hr
  obtain ⟨u, htitle, hright⟩ := Option.bind_eq_some_iff.mp hr
  obtain ⟨left, rfl, hleftLength, hleft⟩ := afterDecoration?_eq_some_iff.mp hleft
  obtain ⟨title, hs, htitle⟩ := (afterTitle?_eq_some_iff fun _ => isWordGap_of_toLower).mp htitle
  obtain ⟨right, hu, hrightLength, hright⟩ := afterDecoration?_eq_some_iff.mp hright
  have hblank : ∀ x : Text, x = x.takeWhile isBlank ++ trimStart x := fun x =>
    List.takeWhile_append_dropWhile.symm
  refine ⟨left ++ (s.takeWhile isBlank ++ (title ++ (u.takeWhile isBlank ++ right))),
    ⟨left, s.takeWhile isBlank, title, u.takeWhile isBlank, right, rfl, ⟨hleftLength.ge, hleft⟩,
      fun c hc => List.mem_takeWhile_imp hc, htitle, fun c hc => List.mem_takeWhile_imp hc,
      ⟨hrightLength.ge, hright⟩⟩, r, ?_⟩
  have hs' : s = s.takeWhile isBlank ++ (title ++ (u.takeWhile isBlank ++ (right ++ r))) := by
    rw [← hu, ← hblank u, ← hs, ← hblank s]
  conv_rhs => rw [hs']
  simp only [List.append_assoc]

/-- A banner begins at the last three characters of its first frame, whatever follows it. -/
theorem exists_startsBanner_of_isBanner {b : Text} (h : IsBanner b) :
    ∃ s, s <:+ b ∧ ∀ r, startsBanner (s ++ r) = true := by
  obtain ⟨left, before, title, after, right, rfl, ⟨hleftLength, hleft⟩, hbefore, htitle, hafter,
    hrightLength, hright⟩ := h
  refine ⟨left.drop (left.length - 3) ++ (before ++ (title ++ (after ++ right))),
    ⟨left.take (left.length - 3), ?_⟩, fun r => ?_⟩
  · rw [← List.append_assoc, List.take_append_drop]
  have hfirst : afterDecoration? (left.drop (left.length - 3) ++
      (before ++ (title ++ (after ++ (right ++ r))))) =
        some (before ++ (title ++ (after ++ (right ++ r)))) := by
    refine afterDecoration?_eq_some_iff.mpr ⟨_, rfl, ?_, fun c hc => ?_⟩
    · rw [List.length_drop]
      omega
    · exact hleft c (List.mem_of_mem_drop hc)
  have hbeforeTitle : trimStart (before ++ (title ++ (after ++ (right ++ r)))) =
      title ++ (after ++ (right ++ r)) := by
    refine dropWhile_append_of_head? hbefore ?_
    obtain ⟨c, v, rfl, hc⟩ := htitle.exists_cons
    exact isBlank_of_toLower (c := c) (hc ▸ rfl)
  have htitleEnd : afterTitle? isWordGap (title ++ (after ++ (right ++ r))) =
      some (after ++ (right ++ r)) :=
    (afterTitle?_eq_some_iff fun _ => isWordGap_of_toLower).mpr ⟨title, rfl, htitle⟩
  have hafterTitle : trimStart (after ++ (right ++ r)) = right ++ r := by
    refine dropWhile_append_of_head? hafter ?_
    obtain ⟨c, v, rfl⟩ :=
      List.exists_cons_of_length_pos (Nat.lt_of_lt_of_le (Nat.succ_pos 2) hrightLength)
    exact not_isBlank_of_isDecoration (hright c List.mem_cons_self)
  have hlast : afterDecoration? (right ++ r) = some (right.drop 3 ++ r) := by
    refine afterDecoration?_eq_some_iff.mpr ⟨right.take 3, ?_, ?_, fun c hc => ?_⟩
    · rw [← List.append_assoc, List.take_append_drop]
    · rw [List.length_take]
      omega
    · exact hright c (List.mem_of_mem_take hc)
  simp only [startsBanner, List.append_assoc, hfirst, hbeforeTitle, htitleEnd, hafterTitle, hlast,
    Option.bind_eq_bind, Option.bind_some, Option.isSome_some]

/-! ### Search -/

/-- **Every banner is found**, wherever it stands, and nothing else is. -/
theorem hasBanner_iff : hasBanner t = true ↔ ∃ b, IsBanner b ∧ b <:+: t := by
  rw [hasBanner, List.any_eq_true]
  constructor
  · rintro ⟨s, hs, hstarts⟩
    obtain ⟨b, hb, hprefix⟩ := exists_isBanner_of_startsBanner hstarts
    exact ⟨b, hb, hprefix.isInfix.trans (mem_suffixes.mp hs).isInfix⟩
  · rintro ⟨b, hb, before, after, rfl⟩
    obtain ⟨s, ⟨l, rfl⟩, hstarts⟩ := exists_startsBanner_of_isBanner hb
    refine ⟨s ++ after, mem_suffixes.mpr ⟨before ++ l, ?_⟩, hstarts after⟩
    simp only [List.append_assoc]

/-- **Every phrase is found**, wherever it stands, and nothing else is. -/
theorem hasPhrase_iff : hasPhrase t = true ↔ ∃ p, IsTitle isBlank p ∧ p <:+: t := by
  have hgap : ∀ c : Char, c.toLower = 'o' → isBlank c = false := fun c hc =>
    isBlank_of_toLower (hc ▸ rfl)
  rw [hasPhrase, List.any_eq_true]
  constructor
  · rintro ⟨s, hs, hsome⟩
    obtain ⟨r, hr⟩ := Option.isSome_iff_exists.mp hsome
    obtain ⟨p, rfl, hp⟩ := (afterTitle?_eq_some_iff hgap).mp hr
    exact ⟨p, hp, (List.prefix_append p r).isInfix.trans (mem_suffixes.mp hs).isInfix⟩
  · rintro ⟨p, hp, before, after, rfl⟩
    refine ⟨p ++ after, mem_suffixes.mpr ⟨before, by rw [List.append_assoc]⟩, ?_⟩
    rw [(afterTitle?_eq_some_iff hgap).mpr ⟨p, rfl, hp⟩]
    rfl

theorem occursIn_iff {part : Text} : occursIn part t = true ↔ part <:+: t := by
  rw [occursIn, List.any_eq_true, List.infix_iff_prefix_suffix]
  exact exists_congr fun s => by rw [mem_suffixes, List.isPrefixOf_iff_prefix, and_comm]

/-- **Exactly which blocks are recognised**: those whose identifier has the marker in either case,
and those with a banner in the text, or with a banner or a phrase in the label. -/
theorem isOrder_iff (block id : Text) (label : Option Text) :
    isOrder block id label = true ↔
      "interview_order".toList <:+: lower id ∨ (∃ b, IsBanner b ∧ b <:+: block) ∨
        ∃ l, label = some l ∧
          ((∃ b, IsBanner b ∧ b <:+: l) ∨ ∃ p, IsTitle isBlank p ∧ p <:+: l) := by
  have hlabel : (label.any fun l => hasBanner l || hasPhrase l) = true ↔
      ∃ l, label = some l ∧
        ((∃ b, IsBanner b ∧ b <:+: l) ∨ ∃ p, IsTitle isBlank p ∧ p <:+: l) := by
    rw [Option.any_eq_true]
    refine exists_congr fun l => and_congr_right fun _ => ?_
    rw [Bool.or_eq_true, hasBanner_iff, hasPhrase_iff]
  rw [isOrder, Bool.or_eq_true, Bool.or_eq_true, occursIn_iff, hasBanner_iff, hlabel, or_assoc]
  rfl

end Detect

end InterviewPlan
