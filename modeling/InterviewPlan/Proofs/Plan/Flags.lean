import Mathlib.Data.List.Infix
import InterviewPlan.Plan.Step
import InterviewPlan.Proofs.Text.Trim

/-!
# Flags of guarded steps

A derived flag is made of word characters and underscores.  Deriving keeps the word characters of
the name, all of them, and puts a lead before them, so that no name begins with its own flag.

## Main results

* `Flag.isInline_derived`: a derived flag stands on a line
* `Flag.not_isPrefix_derived`: no part of a name begins with the flag of the name
* `Step.effectiveFlag_effectiveFlag`: a flag that has been derived is kept
-/

namespace InterviewPlan

namespace Flag

variable {c : Char} {name : Text}

/-! ### Word characters -/

theorem isBlank_of_isWordChar (h : isWordChar c = true) : Text.isBlank c = false := by
  delta isWordChar Char.isAlphanum Char.isAlpha Char.isDigit Char.isUpper Char.isLower at h
  simp [UInt32.le_iff_toNat_le] at h
  simp [Text.isBlank, Text.blankRanges]
  omega

/-- What is no capital letter is its own lower case. -/
theorem toLower_eq_self (h : c.isUpper = false) : c.toLower = c := by
  delta Char.toLower
  rw [dif_neg]
  delta Char.isUpper at h
  simpa using h

/-- The lower case of a word character is a small letter or a digit. -/
theorem isLower_or_isDigit_toLower (hc : isWordChar c = true) :
    c.toLower.isLower = true ∨ c.toLower.isDigit = true := by
  cases hupper : c.isUpper with
  | true =>
    left
    delta Char.isUpper at hupper
    have hu : c.val ≥ 'A'.val ∧ c.val ≤ 'Z'.val := by simpa using hupper
    have hval : c.toLower.val = c.val + ('a'.val - 'A'.val) := by
      delta Char.toLower
      rw [dif_pos hu]
    delta Char.isLower
    simp [UInt32.le_iff_toNat_le] at hu
    simp [hval, UInt32.le_iff_toNat_le]
    omega
  | false =>
    have hparts : ((c.isUpper || c.isLower) || c.isDigit) = true := hc
    rw [hupper, Bool.false_or, Bool.or_eq_true] at hparts
    rwa [toLower_eq_self hupper]

/-- The lower case of a word character is one. -/
theorem isWordChar_toLower (h : isWordChar c = true) : isWordChar c.toLower = true := by
  have hparts : isWordChar c.toLower =
      ((c.toLower.isUpper || c.toLower.isLower) || c.toLower.isDigit) := rfl
  rcases isLower_or_isDigit_toLower h with hlower | hdigit
  · rw [hparts, hlower, Bool.or_true, Bool.true_or]
  · rw [hparts, hdigit, Bool.or_true]

/-- The words of a name are made of word characters and joined by underscores. -/
theorem mem_slug {started separated : Bool} (h : c ∈ slug started separated name) :
    isWordChar c = true ∨ c = '_' := by
  induction name generalizing started separated with
  | nil => cases h
  | cons a r ih =>
    rw [slug] at h
    split at h
    · next ha =>
      rcases List.mem_append.mp h with h | h
      · split at h
        · exact Or.inr (List.mem_singleton.mp h)
        · cases h
      · rcases List.mem_cons.mp h with rfl | h
        · exact Or.inl (isWordChar_toLower ha)
        · exact ih h
    · exact ih h

/-- No word character of a name is lost. -/
theorem countP_slug (started separated : Bool) (name : Text) :
    (slug started separated name).countP isWordChar = name.countP isWordChar := by
  induction name generalizing started separated with
  | nil => rfl
  | cons a r ih =>
    rw [slug]
    split
    · next ha =>
      have hgap : (if started && separated then ['_'] else []).countP isWordChar = 0 := by
        split <;> decide
      rw [List.countP_append, hgap, List.countP_cons_of_pos (isWordChar_toLower ha), ih,
        List.countP_cons_of_pos ha, Nat.zero_add]
    · next ha => rw [ih, List.countP_cons_of_neg ha]

/-! ### Derived flags -/

/-- A derived flag is made of word characters and underscores. -/
theorem mem_derived (h : c ∈ derived name) : isWordChar c = true ∨ c = '_' := by
  have hlead : lead.all (fun a => isWordChar a || a = '_') = true := rfl
  have hword : emptyWord.all (fun a => isWordChar a || a = '_') = true := rfl
  rcases List.mem_append.mp h with h | h
  · simpa using List.all_eq_true.mp hlead c h
  · split at h
    · simpa using List.all_eq_true.mp hword c h
    · exact mem_slug h

/-- A character that no word has and that is no underscore is in no derived flag. -/
theorem notMem_derived (hc : isWordChar c = false) (hu : c ≠ '_') : c ∉ derived name := by
  intro h
  rcases mem_derived h with h | h
  · rw [hc] at h
    cases h
  · exact hu h

/-- **A derived flag stands on a line.** -/
theorem isInline_derived (name : Text) : Text.IsInline (derived name) := by
  have hvisible : ∀ a ∈ derived name, Text.isBlank a = false := by
    intro a ha
    rcases mem_derived ha with h | rfl
    · exact isBlank_of_isWordChar h
    · decide
  refine ⟨List.append_ne_nil_of_left_ne_nil (by decide) _, Text.trim_eq_self_iff.mpr ⟨?_, ?_⟩,
    notMem_derived (by decide) (by decide)⟩
  · exact fun a ha => hvisible a (List.mem_of_mem_head? ha)
  · exact fun a ha => hvisible a (List.mem_of_mem_getLast? ha)

/-- **No part of a name begins with the flag of the name**, which has more word characters. -/
theorem not_isPrefix_derived {t : Text} (h : t.Sublist name) : ¬ derived name <+: t := by
  intro hbegins
  have hle : (derived name).countP isWordChar ≤ name.countP isWordChar :=
    (hbegins.sublist.trans h).countP_le
  have hlead : lead.countP isWordChar = 7 := by decide
  have hword : emptyWord.countP isWordChar = 4 := by decide
  have hslug := countP_slug false false name
  rw [derived, List.countP_append, hlead] at hle
  split at hle
  · next hempty =>
    rw [List.isEmpty_iff.mp hempty, List.countP_nil] at hslug
    omega
  · omega

end Flag

namespace Step

variable {name : Text} {flag : Option Text}

/-- The flag that guards a step stands on a line, if one that is given does. -/
theorem isInline_effectiveFlag (h : ∀ f ∈ flag, Text.IsInline f) :
    Text.IsInline (effectiveFlag name flag) := by
  unfold effectiveFlag
  split
  · next f =>
    split
    · exact Flag.isInline_derived name
    · exact h f rfl
  · exact Flag.isInline_derived name

theorem effectiveFlag_some {f : Text} (h : Text.IsInline f) : effectiveFlag name (some f) = f := by
  rw [effectiveFlag, if_neg (by rw [h.isBlankText]; decide)]

/-- **The flag that guards a step guards it again** when it is given. -/
theorem effectiveFlag_effectiveFlag (name : Text) (flag : Option Text) :
    effectiveFlag name (some (effectiveFlag name flag)) = effectiveFlag name flag := by
  have hderived := @effectiveFlag_some name _ (Flag.isInline_derived name)
  cases flag with
  | none => exact hderived
  | some f =>
    by_cases hf : Text.isBlankText f = true
    · rw [show effectiveFlag name (some f) = Flag.derived name from if_pos hf]
      exact hderived
    · rw [show effectiveFlag name (some f) = f from if_neg hf]
      exact if_neg hf

end Step

end InterviewPlan
