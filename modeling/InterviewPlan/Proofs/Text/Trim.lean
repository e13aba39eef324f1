import Mathlib.Data.List.DropRight
import Mathlib.Data.List.TakeWhile
import InterviewPlan.Text.Lines

/-!
# Trimming

A text is trimmed if neither of its ends is blank.  Trimming removes blanks and nothing else, so it
leaves a trimmed text alone and sees through blanks that are put around one.

## Main definitions

* `Text.IsTrimmed`, `Text.IsInline`: a trimmed text that is not empty, and one that stays on a line

## Main results

* `Text.trim_eq_self_iff`: what trimming leaves alone
* `Text.trim_surround`: trimming sees through blanks at either end
* `Text.exists_surround`: a text is its trimmed text between blanks
* `Text.count_trim`: trimming removes no visible character
-/

namespace InterviewPlan

namespace Text

variable {s t b e : Text} {c : Char}

/-! ### Characters -/

@[simp] theorem isBlank_space : isBlank ' ' = true := by decide

@[simp] theorem isBlank_lineFeed : isBlank '\n' = true := by decide

/-- Spaces and tabs are blank. -/
theorem isBlank_of_isIndent (h : isIndent c = true) : isBlank c = true := by
  rcases Bool.or_eq_true _ _ ▸ h with h | h <;> rw [beq_iff_eq.mp h] <;> decide

/-! ### The ends of a text -/

theorem dropWhile_of_head? {p : Char → Bool} (h : t.head?.any p = false) :
    t.dropWhile p = t := by
  cases t with
  | nil => rfl
  | cons c r => exact List.dropWhile_cons_of_neg (by simpa using h)

theorem dropEndWhile_of_getLast? {p : Char → Bool} (h : t.getLast?.any p = false) :
    dropEndWhile p t = t := by
  have hself : t.rdropWhile p = t := by
    rw [List.rdropWhile_eq_self_iff]
    intro hne hp
    rw [List.getLast?_eq_some_getLast hne, Option.any_some, hp] at h
    cases h
  exact hself

/-- Trailing blanks are dropped from the right. -/
theorem trimEnd_eq_rdropWhile (t : Text) : trimEnd t = t.rdropWhile isBlank := rfl

theorem trimStart_eq_self_iff : trimStart t = t ↔ ∀ c ∈ t.head?, isBlank c = false := by
  cases t with
  | nil => simp [trimStart]
  | cons c r =>
    rw [trimStart, List.dropWhile_eq_self_iff]
    simp

theorem trimEnd_eq_self_iff : trimEnd t = t ↔ ∀ c ∈ t.getLast?, isBlank c = false := by
  rw [trimEnd_eq_rdropWhile, List.rdropWhile_eq_self_iff]
  cases t using List.reverseRecOn <;> simp

/-- The head of a text without leading blanks is not blank. -/
theorem isBlank_head?_trimStart (h : c ∈ (trimStart t).head?) : isBlank c = false := by
  have hd := List.head?_dropWhile_not isBlank t
  rw [show (List.dropWhile isBlank t).head? = some c from h] at hd
  simpa using hd

theorem isBlank_getLast?_trimEnd (h : c ∈ (trimEnd t).getLast?) : isBlank c = false := by
  rw [trimEnd_eq_rdropWhile] at h
  obtain ⟨hne, rfl⟩ := List.mem_getLast?_eq_getLast h
  simpa using List.rdropWhile_last_not _ _ hne

theorem trimEnd_isPrefix (t : Text) : trimEnd t <+: t := List.rdropWhile_prefix isBlank t

theorem trimStart_suffix (t : Text) : trimStart t <:+ t := List.dropWhile_suffix _

/-- The head of a trimmed text is not blank. -/
theorem isBlank_head?_trim (h : c ∈ (trim t).head?) : isBlank c = false := by
  obtain ⟨e, he⟩ := trimEnd_isPrefix (trimStart t)
  refine isBlank_head?_trimStart (t := t) ?_
  rw [← he]
  cases ht : trimEnd (trimStart t) with
  | nil => rw [trim, ht] at h; simp at h
  | cons a r => rw [trim, ht] at h; simpa using h

theorem isBlank_getLast?_trim (h : c ∈ (trim t).getLast?) : isBlank c = false :=
  isBlank_getLast?_trimEnd h

/-- **Trimming leaves a text alone** if and only if neither of its ends is blank. -/
theorem trim_eq_self_iff :
    trim t = t ↔ (∀ c ∈ t.head?, isBlank c = false) ∧ ∀ c ∈ t.getLast?, isBlank c = false := by
  constructor
  · intro h
    constructor
    · intro c hc
      exact isBlank_head?_trim (t := t) (by rwa [h])
    · intro c hc
      exact isBlank_getLast?_trim (t := t) (by rwa [h])
  · rintro ⟨hh, hl⟩
    rw [trim, trimStart_eq_self_iff.mpr hh, trimEnd_eq_self_iff.mpr hl]

@[simp] theorem trim_trim (t : Text) : trim (trim t) = trim t :=
  trim_eq_self_iff.mpr ⟨fun _ => isBlank_head?_trim, fun _ => isBlank_getLast?_trim⟩

/-- A trimmed text that is not empty begins visibly. -/
theorem exists_eq_cons_of_trim (hne : t ≠ []) (h : trim t = t) :
    ∃ c r, t = c :: r ∧ isBlank c = false := by
  obtain ⟨c, r, rfl⟩ := List.exists_cons_of_ne_nil hne
  exact ⟨c, r, rfl, (trim_eq_self_iff.mp h).1 c rfl⟩

/-! ### Blanks around a text -/

theorem trimStart_append (hb : ∀ c ∈ b, isBlank c = true) (t : Text) :
    trimStart (b ++ t) = trimStart t :=
  List.dropWhile_append_of_pos hb

theorem trimEnd_append (t : Text) (he : ∀ c ∈ e, isBlank c = true) :
    trimEnd (t ++ e) = trimEnd t := by
  have he' : ∀ c ∈ e.reverse, isBlank c = true := fun c hc => he c (List.mem_reverse.mp hc)
  rw [trimEnd, dropEndWhile, List.reverse_append, List.dropWhile_append_of_pos he']
  rfl

/-- Blanks alone are trimmed away. -/
theorem trim_eq_nil_iff : trim t = [] ↔ ∀ c ∈ t, isBlank c = true := by
  rw [trim, trimEnd_eq_rdropWhile, List.rdropWhile_eq_nil_iff]
  constructor
  · intro h
    have hd : trimStart t = [] := by
      cases ht : trimStart t with
      | nil => rfl
      | cons a r =>
        have ha : isBlank a = false := isBlank_head?_trimStart (t := t) (by rw [ht]; rfl)
        have hb := h a (by rw [ht]; exact List.mem_cons_self)
        rw [ha] at hb
        exact absurd hb (by simp)
    exact List.dropWhile_eq_nil_iff.mp hd
  · intro h c hc
    exact h c ((trimStart_suffix t).subset hc)

theorem isBlankText_iff : isBlankText t = true ↔ ∀ c ∈ t, isBlank c = true := by
  rw [isBlankText, List.all_eq_true]

theorem isBlankText_iff_trim : isBlankText t = true ↔ trim t = [] :=
  isBlankText_iff.trans trim_eq_nil_iff.symm

theorem trim_blank_append (hb : ∀ c ∈ b, isBlank c = true) (t : Text) : trim (b ++ t) = trim t := by
  rw [trim, trimStart_append hb, trim]

theorem trim_append_blank (he : ∀ c ∈ e, isBlank c = true) (t : Text) : trim (t ++ e) = trim t := by
  by_cases ht : ∀ c ∈ t, isBlank c = true
  · rw [trim_eq_nil_iff.mpr ht]
    exact trim_eq_nil_iff.mpr (List.forall_mem_append.mpr ⟨ht, he⟩)
  · have hne : (List.dropWhile isBlank t).isEmpty = false := by
      rw [List.isEmpty_eq_false_iff]
      exact fun h => ht (List.dropWhile_eq_nil_iff.mp h)
    rw [trim, trimStart, List.dropWhile_append, hne]
    exact trimEnd_append _ he

/-- **Trimming sees through blanks** at either end. -/
theorem trim_surround (hb : ∀ c ∈ b, isBlank c = true) (he : ∀ c ∈ e, isBlank c = true) (t : Text) :
    trim (b ++ t ++ e) = trim t := by
  rw [trim_append_blank he, trim_blank_append hb]

/-- A text is its trimmed text between blanks. -/
theorem exists_surround (t : Text) :
    ∃ b e, t = b ++ trim t ++ e ∧ (∀ c ∈ b, isBlank c = true) ∧ ∀ c ∈ e, isBlank c = true := by
  refine ⟨t.takeWhile isBlank, (trimStart t).rtakeWhile isBlank, ?_, ?_, ?_⟩
  · rw [List.append_assoc, trim, trimEnd_eq_rdropWhile, List.rdropWhile_append_rtakeWhile,
      trimStart, List.takeWhile_append_dropWhile]
  · exact fun c hc => List.mem_takeWhile_imp hc
  · exact fun c hc => List.mem_rtakeWhile_imp hc

theorem notMem_of_blank (hc : isBlank c = false) (h : ∀ a ∈ t, isBlank a = true) : c ∉ t := by
  intro hmem
  rw [h c hmem] at hc
  cases hc

/-- Trimming removes no visible character. -/
theorem count_trim (hc : isBlank c = false) (t : Text) : (trim t).count c = t.count c := by
  obtain ⟨b, e, ht, hb, he⟩ := exists_surround t
  conv_rhs =>
    rw [ht, List.count_append, List.count_append, List.count_eq_zero.mpr (notMem_of_blank hc hb),
      List.count_eq_zero.mpr (notMem_of_blank hc he)]
  omega

theorem count_trimStart (hc : isBlank c = false) (t : Text) :
    (trimStart t).count c = t.count c := by
  rw [← count_trim hc t, ← count_trim hc (trimStart t), trim, trim, trimStart, trimStart,
    List.dropWhile_idempotent]

theorem mem_trim_of_mem (hc : c ∈ t) (h : isBlank c = false) : c ∈ trim t :=
  List.count_pos_iff.mp ((count_trim h t).symm ▸ List.count_pos_iff.mpr hc)

theorem mem_of_mem_trim (hc : c ∈ trim t) : c ∈ t :=
  (trimStart_suffix t).subset ((trimEnd_isPrefix _).subset hc)

/-- What a text begins with behind its blanks stands in front of a visible character that is known
to be in it, unless it is that character itself. -/
theorem exists_of_trimStart_append_cons {a : Char} (ha : isBlank a = false) (hne : c ≠ a) {r : Text}
    (h : trimStart (s ++ a :: t) = c :: r) : ∃ u, trimStart s = c :: u ∧ r = u ++ a :: t := by
  induction s with
  | nil =>
    rw [trimStart, List.nil_append, List.dropWhile_cons_of_neg (by simp [ha])] at h
    exact absurd (List.cons.inj h).1.symm hne
  | cons b s ih =>
    cases hb : isBlank b with
    | true =>
      rw [trimStart, List.cons_append, List.dropWhile_cons_of_pos hb] at h
      rw [trimStart, List.dropWhile_cons_of_pos hb]
      exact ih h
    | false =>
      rw [trimStart, List.cons_append, List.dropWhile_cons_of_neg (by simp [hb])] at h
      obtain ⟨rfl, rfl⟩ := List.cons.inj h
      exact ⟨s, by rw [trimStart, List.dropWhile_cons_of_neg (by simp [hb])], rfl⟩

/-! ### Beginnings -/

theorem isPrefixOf?_eq_none (h : ¬ s <+: t) : s.isPrefixOf? t = none :=
  Option.eq_none_iff_forall_ne_some.mpr fun r hr =>
    h ⟨r, List.isPrefixOf?_eq_some_iff_append_eq.mp hr⟩

/-! ### Up to a character -/

theorem takeWhile_ne_append (h : c ∉ s) (t : Text) : (s ++ c :: t).takeWhile (· ≠ c) = s := by
  rw [List.takeWhile_append_of_pos fun a ha => by simpa using fun hac : a = c => h (hac ▸ ha)]
  simp

theorem dropWhile_ne_append (h : c ∉ s) (t : Text) : (s ++ c :: t).dropWhile (· ≠ c) = c :: t := by
  rw [List.dropWhile_append_of_pos fun a ha => by simpa using fun hac : a = c => h (hac ▸ ha)]
  simp

/-! ### Texts that stand on a line -/

/-- A text that is not empty and has no blank at either end. -/
def IsTrimmed (t : Text) : Prop := t ≠ [] ∧ trim t = t

instance : Decidable (IsTrimmed t) := inferInstanceAs (Decidable (_ ∧ _))

/-- A text that can stand on a line by itself: it is not empty, no end of it is blank, and it has
no line feed. -/
def IsInline (t : Text) : Prop := t ≠ [] ∧ trim t = t ∧ '\n' ∉ t

instance : Decidable (IsInline t) := inferInstanceAs (Decidable (_ ∧ _ ∧ _))

theorem IsInline.isTrimmed (h : IsInline t) : IsTrimmed t := ⟨h.1, h.2.1⟩

theorem IsInline.isBlankText (h : IsInline t) : isBlankText t = false := by
  rw [Bool.eq_false_iff]
  intro hb
  refine h.1 ?_
  rw [← h.2.1, trim_eq_nil_iff]
  exact isBlankText_iff.mp hb

section Between

variable {p q : Text} (hp : p.head?.any (!isBlank ·) = true)
  (hq : q.getLast?.any (!isBlank ·) = true)
include hp hq

/-- A text is trimmed if it begins and ends visibly, whatever stands between. -/
theorem isTrimmed_between (t : Text) : IsTrimmed (p ++ t ++ q) := by
  obtain ⟨a, ha, hvisible⟩ := (Option.any_eq_true _ _).mp hp
  obtain ⟨z, hz, hvisible'⟩ := (Option.any_eq_true _ _).mp hq
  obtain ⟨p, rfl⟩ := List.head?_eq_some_iff.mp ha
  obtain ⟨q, rfl⟩ := List.getLast?_eq_some_iff.mp hz
  refine ⟨by simp, trim_eq_self_iff.mpr ⟨fun c hc => ?_, fun c hc => ?_⟩⟩
  · obtain rfl : a = c := by simpa using hc
    simpa using hvisible
  · rw [← List.append_assoc, List.getLast?_concat] at hc
    obtain rfl : z = c := Option.some.inj hc
    simpa using hvisible'

theorem isInline_between (hfeed : '\n' ∉ p ++ t ++ q) : IsInline (p ++ t ++ q) :=
  ⟨(isTrimmed_between hp hq t).1, (isTrimmed_between hp hq t).2, hfeed⟩

end Between

end Text

end InterviewPlan
