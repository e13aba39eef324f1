import Mathlib.Data.Nat.Log
import Mathlib.Tactic.Ring
import Mathlib.Tactic.Linarith
import InterviewPlan.Number.Decimal

/-!
# Integral numbers of the binary format

A finite number whose magnitude is a natural number is the one that rounding this natural number
gives, since nothing is lost in rounding it.  Natural numbers below `2 ^ 53` are among them, and so
is whatever rounding to an integer gives.

## Main definitions

* `Binary.HasMagnitude`: a finite number whose magnitude is a given natural number

## Main results

* `Binary.ofRatio_of_hasMagnitude`: an integral number is what its magnitude rounds to
* `Binary.hasMagnitude_ofRatio`: natural numbers below `2 ^ 53` are magnitudes
* `Binary.exists_hasMagnitude_roundToInteger`: rounding to an integer gives an integral number
* `Binary.roundToInteger_roundToInteger`: and leaves it alone from then on
-/

namespace InterviewPlan

theorem magnitudesPerExponent_eq : magnitudesPerExponent = 2 ^ 52 := by decide

/-- A quotient that is an integer is not changed by rounding it. -/
theorem roundedQuotient_mul (q den : Nat) (hden : 0 < den) (tie : Tie) :
    roundedQuotient (q * den) den tie = q := by
  have hq : q * den / den = q := Nat.mul_div_cancel q hden
  have hr : q * den % den = 0 := Nat.mul_mod_left q den
  have hlt : compare (2 * (q * den % den)) den = .lt := by
    rw [hr, Nat.mul_zero]
    exact Nat.compare_eq_lt.mpr hden
  simp only [roundedQuotient, hlt, hq]

/-- Rounding a quotient gives at most one more than its floor. -/
theorem roundedQuotient_le (num den : Nat) (tie : Tie) :
    roundedQuotient num den tie ≤ num / den + 1 := by
  unfold roundedQuotient
  dsimp only
  split
  · exact Nat.le_succ _
  · exact Nat.le_refl _
  · exact Nat.le_refl _
  · split
    · exact Nat.le_succ _
    · exact Nat.le_refl _

namespace Binary

variable {x : Binary} {n : Nat}

/-- The number is finite, and its magnitude is a given natural number. -/
def HasMagnitude (x : Binary) (n : Nat) : Prop :=
  x.isFinite = true ∧ x.numerator = n * x.denominator

theorem denominator_pos (x : Binary) : 0 < x.denominator := Nat.pow_pos (by decide)

theorem significand_lt (x : Binary) : x.significand < 2 ^ 53 := by
  unfold significand
  rw [magnitudesPerExponent_eq]
  split
  · omega
  · have := Nat.mod_lt x.rank (show 0 < 2 ^ 52 by decide)
    omega

/-- Two numbers of one sign and one rank are equal. -/
theorem eq_of_rank {x y : Binary} (hs : x.negative = y.negative) (hr : x.rank = y.rank) :
    x = y := by
  cases x
  cases y
  cases hs
  cases hr
  rfl

theorem negative_ofRank (negative : Bool) (rank : Nat) :
    (ofRank negative rank).negative = negative :=
  rfl

theorem rank_ofRank (negative : Bool) {rank : Nat} (h : rank ≤ infinityRank) :
    (ofRank negative rank).rank = rank :=
  Nat.min_eq_left h

theorem isFinite_iff : x.isFinite = true ↔ x.rank < infinityRank := by
  rw [isFinite, decide_eq_true_iff]

/-! ### Rounding a natural number -/

/-- The exponent at which a natural number is rounded keeps 53 of its binary digits. -/
theorem ratioExponent_one (hn : 0 < n) : ratioExponent n 1 = (n.log2 : Int) - 52 := by
  have hlog : 2 ^ n.log2 ≤ n := Nat.log2_self_le hn.ne'
  have hone : Nat.log2 1 = 0 := by decide
  have hshort : ¬ n * Nat.pow 2 (-((n.log2 : Int) - (0 : Nat) - 52)).toNat
      < 1 * Nat.pow 2 (((n.log2 : Int) - (0 : Nat) - 52).toNat + 52) := by
    rw [Nat.one_mul, Nat.not_lt, Nat.pow_eq, Nat.pow_eq]
    calc 2 ^ (((n.log2 : Int) - (0 : Nat) - 52).toNat + 52)
        = 2 ^ n.log2 * 2 ^ (-((n.log2 : Int) - (0 : Nat) - 52)).toNat := by
          rw [← Nat.pow_add]
          congr 1
          omega
      _ ≤ n * 2 ^ (-((n.log2 : Int) - (0 : Nat) - 52)).toNat := Nat.mul_le_mul_right _ hlog
  simp only [ratioExponent, hone]
  rw [if_neg hshort]
  omega

/-- A natural number that loses no binary digit is rounded to the rank of its leading 53 digits. -/
theorem ofRatio_natural (negative : Bool) {m : Nat} (hn : 0 < n)
    (hm : n * 2 ^ (52 - n.log2) = m * 2 ^ (n.log2 - 52)) :
    ofRatio negative n 1 = ofRank negative (m + (n.log2 + 1022) * magnitudesPerExponent) := by
  have hneg : (-((n.log2 : Int) - 52)).toNat = 52 - n.log2 := by omega
  have hpos : ((n.log2 : Int) - 52).toNat = n.log2 - 52 := by omega
  have hunits : roundedQuotient (n * Nat.pow 2 (52 - n.log2)) (1 * Nat.pow 2 (n.log2 - 52)) .toEven
      = m := by
    rw [Nat.one_mul, Nat.pow_eq, Nat.pow_eq, hm]
    exact roundedQuotient_mul m _ (Nat.pow_pos (by decide)) _
  have hrank : ((n.log2 : Int) - 52 + 1074).toNat = n.log2 + 1022 := by omega
  simp only [ofRatio, if_neg hn.ne', ratioExponent_one hn, hneg, hpos, hunits, hrank]

/-! ### Integral numbers -/

/-- Every number with a natural magnitude other than zero has all 53 binary digits. -/
theorem HasMagnitude.le_rank (h : x.HasMagnitude n) (hn : 0 < n) :
    magnitudesPerExponent ≤ x.rank := by
  by_contra hlt
  rw [Nat.not_le] at hlt
  have hdiv : x.rank / magnitudesPerExponent = 0 := Nat.div_eq_of_lt hlt
  have hexp : x.exponent = -1074 := by simp [exponent, hdiv]
  have hnum : x.numerator = x.rank := by simp [numerator, significand, hlt, hexp]
  have hden : 2 ^ 52 < x.denominator := Nat.pow_lt_pow_right (by decide) (by omega)
  have hle : x.denominator ≤ x.rank := by
    rw [← hnum, h.2]
    exact Nat.le_mul_of_pos_left _ hn
  rw [magnitudesPerExponent_eq] at hlt
  omega

/-- The significand and the exponent of a number that has all 53 binary digits. -/
theorem significand_exponent_of_rank {f q : Nat} (hf : f < 2 ^ 52) (hq : 1 ≤ q)
    (h : x.rank = f + q * 2 ^ 52) : x.significand = 2 ^ 52 + f ∧ x.exponent = (q : Int) - 1075 := by
  have hdiv : x.rank / magnitudesPerExponent = q := by
    rw [h, magnitudesPerExponent_eq, Nat.add_mul_div_right _ _ (by decide), Nat.div_eq_of_lt hf,
      Nat.zero_add]
  have hmod : x.rank % magnitudesPerExponent = f := by
    rw [h, magnitudesPerExponent_eq, Nat.add_mul_mod_self_right, Nat.mod_eq_of_lt hf]
  have hge : ¬ x.rank < magnitudesPerExponent := by
    rw [Nat.not_lt, ← Nat.one_le_div_iff (by decide), hdiv]
    exact hq
  constructor
  · rw [significand, if_neg hge, hmod, magnitudesPerExponent_eq]
  · rw [exponent, hdiv, max_eq_left hq]

/-- The leading 53 binary digits of a number tell how many it has. -/
theorem log2_of_mul_pow {f q : Nat} (hn : 0 < n) (hf : f < 2 ^ 52)
    (h : (2 ^ 52 + f) * 2 ^ (q - 1075) = n * 2 ^ (1075 - q)) (hq : 1 ≤ q) :
    n.log2 + 1023 = q := by
  have hlow : 2 ^ 52 * 2 ^ (q - 1075) ≤ n * 2 ^ (1075 - q) := by
    rw [← h]
    exact Nat.mul_le_mul_right _ (by omega)
  have hhigh : n * 2 ^ (1075 - q) < 2 ^ 53 * 2 ^ (q - 1075) := by
    rw [← h]
    exact Nat.mul_lt_mul_of_pos_right (by omega) (Nat.pow_pos (by decide))
  have hself : 2 ^ n.log2 ≤ n := Nat.log2_self_le hn.ne'
  have hself' : n < 2 ^ (n.log2 + 1) := Nat.lt_log2_self
  have hlow' : 2 ^ (52 + (q - 1075)) < 2 ^ (n.log2 + 1 + (1075 - q)) := by
    rw [Nat.pow_add, Nat.pow_add (n := 1075 - q)]
    exact lt_of_le_of_lt hlow (Nat.mul_lt_mul_of_pos_right hself' (Nat.pow_pos (by decide)))
  have hhigh' : 2 ^ (n.log2 + (1075 - q)) < 2 ^ (53 + (q - 1075)) := by
    rw [Nat.pow_add, Nat.pow_add (m := 53)]
    exact lt_of_le_of_lt (Nat.mul_le_mul_right _ hself) hhigh
  have h1 := (Nat.pow_lt_pow_iff_right (by decide)).mp hlow'
  have h2 := (Nat.pow_lt_pow_iff_right (by decide)).mp hhigh'
  omega

/-- **An integral number is what its magnitude rounds to.** -/
theorem ofRatio_of_hasMagnitude (h : x.HasMagnitude n) (hn : 0 < n) :
    ofRatio x.negative n 1 = x := by
  have hle := h.le_rank hn
  have hfin : x.rank < infinityRank := isFinite_iff.mp h.1
  rw [magnitudesPerExponent_eq] at hle
  obtain ⟨f, q, hf, hq, hrank⟩ : ∃ f q, f < 2 ^ 52 ∧ 1 ≤ q ∧ x.rank = f + q * 2 ^ 52 :=
    ⟨x.rank % 2 ^ 52, x.rank / 2 ^ 52, Nat.mod_lt _ (by decide),
      (Nat.one_le_div_iff (by decide)).mpr hle, (Nat.mod_add_div' _ _).symm⟩
  obtain ⟨hsig, hexp⟩ := significand_exponent_of_rank hf hq hrank
  have hval : (2 ^ 52 + f) * 2 ^ (q - 1075) = n * 2 ^ (1075 - q) := by
    have h2 := h.2
    rw [numerator, denominator, hsig, hexp, Nat.pow_eq, Nat.pow_eq] at h2
    rwa [show ((q : Int) - 1075).toNat = q - 1075 by omega,
      show (-((q : Int) - 1075)).toNat = 1075 - q by omega] at h2
  have hlog := log2_of_mul_pow hn hf hval hq
  have hm : n * 2 ^ (52 - n.log2) = (2 ^ 52 + f) * 2 ^ (n.log2 - 52) := by
    rw [show 52 - n.log2 = 1075 - q by omega, show n.log2 - 52 = q - 1075 by omega, hval]
  have hsum : 2 ^ 52 + f + (n.log2 + 1022) * magnitudesPerExponent = x.rank := by
    rw [hrank, magnitudesPerExponent_eq, show q = n.log2 + 1022 + 1 by omega]
    ring
  rw [ofRatio_natural x.negative hn hm, hsum]
  exact eq_of_rank (negative_ofRank _ _) (rank_ofRank _ hfin.le)

/-- The leading 53 binary digits of a number that has no more, the first of which is one. -/
theorem exists_mul_pow_eq (hn : 0 < n) (hlog : n.log2 ≤ 52) :
    ∃ f < 2 ^ 52, n * 2 ^ (52 - n.log2) = 2 ^ 52 + f := by
  have hlow : 2 ^ 52 ≤ n * 2 ^ (52 - n.log2) := by
    calc 2 ^ 52 = 2 ^ n.log2 * 2 ^ (52 - n.log2) := by rw [← Nat.pow_add]; congr 1; omega
      _ ≤ n * 2 ^ (52 - n.log2) := Nat.mul_le_mul_right _ (Nat.log2_self_le hn.ne')
  have hhigh : n * 2 ^ (52 - n.log2) < 2 ^ 53 := by
    calc n * 2 ^ (52 - n.log2) < 2 ^ (n.log2 + 1) * 2 ^ (52 - n.log2) :=
          Nat.mul_lt_mul_of_pos_right Nat.lt_log2_self (Nat.pow_pos (by decide))
      _ = 2 ^ 53 := by rw [← Nat.pow_add]; congr 1; omega
  exact ⟨n * 2 ^ (52 - n.log2) - 2 ^ 52, by omega, (Nat.add_sub_cancel' hlow).symm⟩

/-- **Natural numbers below `2 ^ 53` are magnitudes.** -/
theorem hasMagnitude_ofRatio (negative : Bool) (hn : n < 2 ^ 53) :
    (ofRatio negative n 1).HasMagnitude n ∧ (ofRatio negative n 1).negative = negative := by
  rcases Nat.eq_zero_or_pos n with rfl | hpos
  · constructor
    · constructor
      · decide +revert
      · simp [ofRatio, zero, numerator, significand, ofRank, magnitudesPerExponent]
    · rfl
  have hlog : n.log2 ≤ 52 := by
    have := Nat.log2_lt hpos.ne' |>.mpr hn
    omega
  obtain ⟨f, hflt, hf⟩ := exists_mul_pow_eq hpos hlog
  have hm : n * 2 ^ (52 - n.log2) = (2 ^ 52 + f) * 2 ^ (n.log2 - 52) := by
    rw [hf, show n.log2 - 52 = 0 by omega, Nat.pow_zero, Nat.mul_one]
  have hfin : f + (n.log2 + 1023) * 2 ^ 52 < infinityRank := by
    have hle : (n.log2 + 1023) * 2 ^ 52 ≤ 1075 * 2 ^ 52 := Nat.mul_le_mul_right _ (by omega)
    rw [infinityRank, magnitudesPerExponent_eq]
    omega
  have hsum : 2 ^ 52 + f + (n.log2 + 1022) * magnitudesPerExponent
      = f + (n.log2 + 1023) * 2 ^ 52 := by
    rw [magnitudesPerExponent_eq]
    ring
  have hrank := rank_ofRank negative hfin.le
  have hneg := negative_ofRank negative (f + (n.log2 + 1023) * 2 ^ 52)
  rw [ofRatio_natural negative hpos hm, hsum]
  generalize ofRank negative (f + (n.log2 + 1023) * 2 ^ 52) = y at hrank hneg ⊢
  obtain ⟨hsig, hexp⟩ := significand_exponent_of_rank hflt (by omega) hrank
  have hexp' : y.exponent = (n.log2 : Int) - 52 := by
    rw [hexp]
    omega
  refine ⟨⟨?_, ?_⟩, hneg⟩
  · rw [isFinite_iff, hrank]
    exact hfin
  · rw [numerator, denominator, hsig, hexp', Nat.pow_eq, Nat.pow_eq,
      show ((n.log2 : Int) - 52).toNat = 0 by omega,
      show (-((n.log2 : Int) - 52)).toNat = 52 - n.log2 by omega, Nat.pow_zero, Nat.mul_one, hf]

/-! ### Rounding to an integer -/

/-- A finite number that is at least `2 ^ 52` is integral. -/
theorem hasMagnitude_numerator (hfin : x.isFinite = true) (he : 0 ≤ x.exponent) :
    x.HasMagnitude x.numerator := by
  have hden : x.denominator = 1 := by
    rw [denominator, show (-x.exponent).toNat = 0 by omega]
  exact ⟨hfin, by rw [hden, Nat.mul_one]⟩

/-- The magnitude zero is that of the first rank alone. -/
theorem HasMagnitude.eq_zero (h : x.HasMagnitude 0) : x = zero x.negative := by
  have hsig : x.significand = 0 := by
    have hpos : x.numerator = x.significand * Nat.pow 2 x.exponent.toNat := rfl
    rw [h.2, Nat.zero_mul] at hpos
    rcases Nat.mul_eq_zero.mp hpos.symm with hs | hs
    · exact hs
    · exact absurd hs (Nat.pow_pos (by decide)).ne'
  have hrank : x.rank = 0 := by
    unfold significand at hsig
    split at hsig
    · exact hsig
    · rw [magnitudesPerExponent_eq] at hsig
      omega
  exact eq_of_rank rfl hrank

/-- Integral numbers are left alone by rounding to an integer. -/
theorem roundToInteger_of_hasMagnitude (h : x.HasMagnitude n) : roundToInteger x = x := by
  unfold roundToInteger
  split
  · rfl
  · next he =>
    have hsig : x.significand = n * x.denominator := by
      have hnum : x.numerator = x.significand * Nat.pow 2 x.exponent.toNat := rfl
      rw [h.2, show x.exponent.toNat = 0 by omega] at hnum
      simpa using hnum.symm
    rw [hsig, roundedQuotient_mul n _ x.denominator_pos]
    rcases Nat.eq_zero_or_pos n with rfl | hn
    · exact h.eq_zero.symm
    · exact ofRatio_of_hasMagnitude h hn

/-- **Rounding to an integer** keeps the sign and gives an integral number. -/
theorem exists_hasMagnitude_roundToInteger (hfin : x.isFinite = true) :
    (∃ n, x.roundToInteger.HasMagnitude n) ∧ x.roundToInteger.negative = x.negative := by
  unfold roundToInteger
  split
  · next he => exact ⟨⟨_, hasMagnitude_numerator hfin he⟩, rfl⟩
  · next he =>
    have hden : 2 ≤ x.denominator := by
      rw [denominator, Nat.pow_eq]
      exact Nat.le_self_pow (by omega) 2
    have hlt : roundedQuotient x.significand x.denominator .awayFromZero < 2 ^ 53 := by
      have hle := roundedQuotient_le x.significand x.denominator .awayFromZero
      have hsig := x.significand_lt
      have hdiv : x.significand / x.denominator ≤ x.significand / 2 :=
        Nat.div_le_div_left hden (by decide)
      omega
    obtain ⟨hm, hs⟩ := hasMagnitude_ofRatio x.negative hlt
    exact ⟨⟨_, hm⟩, hs⟩

/-- Infinity is not rounded. -/
theorem roundToInteger_of_not_isFinite (h : x.isFinite = false) : roundToInteger x = x := by
  have hrank : infinityRank ≤ x.rank := by
    rw [← Nat.not_lt, ← isFinite_iff, h]
    decide
  have hdiv : 2047 ≤ x.rank / magnitudesPerExponent := by
    rw [Nat.le_div_iff_mul_le (by decide)]
    exact hrank
  rw [roundToInteger, if_pos]
  rw [exponent, max_eq_left (by exact_mod_cast le_trans (by decide) hdiv)]
  omega

/-- **Rounding to an integer happens once.** -/
theorem roundToInteger_roundToInteger (x : Binary) :
    x.roundToInteger.roundToInteger = x.roundToInteger := by
  cases hfin : x.isFinite with
  | true =>
    obtain ⟨⟨n, hn⟩, -⟩ := exists_hasMagnitude_roundToInteger hfin
    exact roundToInteger_of_hasMagnitude hn
  | false => rw [roundToInteger_of_not_isFinite hfin, roundToInteger_of_not_isFinite hfin]

end Binary

end InterviewPlan
