import Mathlib.Data.List.TakeWhile
import InterviewPlan.Proofs.Number.Integral
import InterviewPlan.Script.Literal

/-!
# The numerals of integral numbers

A script writes an integral number with a sign and decimal digits alone, since its shortest digits
end at or before the decimal point.  Read as a decimal number, these digits give the number again.

## Main results

* `Binary.shortest_of_hasMagnitude`: the shortest digits of an integral number have no fraction
* `Script.number_of_hasMagnitude`: the numeral of an integral number and what it reads as
-/

namespace InterviewPlan

namespace Text

variable {c : Char}

/-! ### Decimal digits -/

theorem isDigit_of_mem_ofNat {n : Nat} (h : c ∈ ofNat n) : c.isDigit = true :=
  Nat.isDigit_of_mem_toDigits (by decide) (by decide) h

theorem notMem_ofNat (hc : c.isDigit = false) (n : Nat) : c ∉ ofNat n := by
  intro h
  rw [isDigit_of_mem_ofNat h] at hc
  cases hc

theorem ofNat_ne_nil (n : Nat) : ofNat n ≠ [] := Nat.toDigits_ne_nil

theorem digitsValue_eq (t : Text) (n : Nat) : digitsValue n t = Nat.ofDigitChars 10 t n := rfl

@[simp] theorem digitsValue_ofNat (n : Nat) : digitsValue 0 (ofNat n) = n :=
  Nat.ofDigitChars_ten_toDigits

theorem ofNat_injective : Function.Injective ofNat := by
  intro m n h
  rw [← digitsValue_ofNat m, h, digitsValue_ofNat]

/-- Zeros after a numeral multiply its number by powers of ten. -/
theorem ofNat_mul_pow {n : Nat} (hn : 0 < n) (k : Nat) :
    ofNat (n * 10 ^ k) = ofNat n ++ List.replicate k '0' := by
  induction k with
  | zero => simp
  | succ k ih =>
    have hstep := @Nat.toDigits_append_toDigits 10 (n * 10 ^ k) 0 (by decide)
      (Nat.mul_pos hn (Nat.pow_pos (by decide))) (by decide)
    rw [show n * 10 ^ (k + 1) = 10 * (n * 10 ^ k) + 0 by ring, ofNat, ← hstep,
      show Nat.toDigits 10 (n * 10 ^ k) = ofNat (n * 10 ^ k) from rfl, ih, List.append_assoc,
      List.replicate_succ']
    rfl

/-- Trailing zeros of a numeral are factors of its number. -/
theorem pow_dvd_of_trailing_zeros (n : Nat) :
    10 ^ ((ofNat n).reverse.takeWhile (· == '0')).length ∣ n := by
  have hzero : ∀ c ∈ (ofNat n).reverse.takeWhile (· == '0'), c = '0' := fun c hc => by
    simpa using List.mem_takeWhile_imp hc
  have hrev := congrArg List.reverse
    (@List.takeWhile_append_dropWhile _ (· == '0') (ofNat n).reverse)
  rw [List.reverse_append, List.reverse_reverse] at hrev
  generalize (ofNat n).reverse.takeWhile (· == '0') = zeros at hzero hrev ⊢
  generalize (ofNat n).reverse.dropWhile (· == '0') = lead at hrev
  have hvalue := digitsValue_ofNat n
  rw [← hrev, List.eq_replicate_of_mem hzero, List.reverse_replicate, digitsValue_eq,
    Nat.ofDigitChars_append, Nat.ofDigitChars_replicate_zero] at hvalue
  exact Dvd.intro _ hvalue

end Text

namespace Decimal

variable {d : Decimal}

/-- Powers of ten add to the number of digits. -/
theorem digitCount_mul_pow {n : Nat} (hn : 0 < n) (k : Nat) :
    digitCount (n * 10 ^ k) = digitCount n + k := by
  have hne : n * 10 ^ k ≠ 0 := (Nat.mul_pos hn (Nat.pow_pos (by decide))).ne'
  rw [digitCount, digitCount, if_neg hne, if_neg hn.ne',
    show Nat.toDigits 10 (n * 10 ^ k) = Text.ofNat (n * 10 ^ k) from rfl, Text.ofNat_mul_pow hn]
  simp [Text.ofNat]

/-- A number has at most `k` digits if it is below `10 ^ k`. -/
theorem digitCount_le_iff {n k : Nat} (hn : 0 < n) (hk : 0 < k) :
    digitCount n ≤ k ↔ n < 10 ^ k := by
  rw [digitCount, if_neg hn.ne', Nat.length_toDigits_le_iff (by decide) hk]

theorem digitCount_pos {n : Nat} (hn : 0 < n) : 0 < digitCount n := by
  rw [digitCount, if_neg hn.ne']
  exact Nat.length_toDigits_pos

/-- Dropping trailing zeros keeps an integer what it is. -/
theorem normalize_of_exponent_nonneg (he : 0 ≤ d.exponent) :
    0 ≤ d.normalize.exponent ∧
      d.normalize.digits * 10 ^ d.normalize.exponent.toNat = d.digits * 10 ^ d.exponent.toNat := by
  unfold normalize
  dsimp only
  split
  · next h0 => simp [h0]
  · next h0 =>
    set zeros := ((Nat.toDigits 10 d.digits).reverse.takeWhile (· == '0')).length with hz
    obtain ⟨q, hq⟩ : 10 ^ zeros ∣ d.digits := Text.pow_dvd_of_trailing_zeros d.digits
    refine ⟨by dsimp only; omega, ?_⟩
    rw [Nat.pow_eq, show (d.exponent + zeros).toNat = d.exponent.toNat + zeros by omega, hq,
      Nat.mul_div_cancel_left q (Nat.pow_pos (by decide))]
    ring

end Decimal

namespace Binary

variable {x : Binary} {n : Nat}

/-- A decimal integer is read in the same way with its zeros written out. -/
theorem ofDecimal_integer (negative : Bool) {d : Decimal} (h0 : 0 < d.digits)
    (he : 0 ≤ d.exponent) :
    ofDecimal negative ⟨d.digits * 10 ^ d.exponent.toNat, 0⟩ = ofDecimal negative d := by
  have hpos : d.digits * 10 ^ d.exponent.toNat ≠ 0 :=
    (Nat.mul_pos h0 (Nat.pow_pos (by decide))).ne'
  have hmag : Decimal.magnitude ⟨d.digits * 10 ^ d.exponent.toNat, 0⟩ = d.magnitude := by
    simp only [Decimal.magnitude, Decimal.digitCount_mul_pow h0]
    omega
  have hneg : (-d.exponent).toNat = 0 := by omega
  simp [ofDecimal, hmag, hneg, hpos, h0.ne']

/-- A decimal is found only if it reads back. -/
theorem ofDecimal_of_decimalOf? {tie : Tie} {count : Nat} {d : Decimal}
    (h : decimalOf? tie x count = some d) :
    ofDecimal x.negative d = x ∧ d.exponent = x.magnitude - count := by
  unfold decimalOf? at h
  dsimp only at h
  split at h
  · next hx => cases h; exact ⟨hx, rfl⟩
  · split at h
    · next hx => cases h; exact ⟨hx, rfl⟩
    · split at h
      · next hx => cases h; exact ⟨hx, rfl⟩
      · cases h

theorem HasMagnitude.pos_digits (h : x.HasMagnitude n) (hn : 0 < n) {d : Decimal}
    (hd : ofDecimal x.negative d = x) : 0 < d.digits := by
  rw [Nat.pos_iff_ne_zero]
  intro h0
  have hzero : x.rank = 0 := by
    rw [← hd, ofDecimal, if_pos (by simp [h0])]
    exact rank_ofRank _ (Nat.zero_le _)
  have hle := h.le_rank hn
  rw [magnitudesPerExponent_eq] at hle
  omega

section Shortest

variable (h : x.HasMagnitude n) (hn : 0 < n)
include h hn

theorem magnitude_of_hasMagnitude : x.magnitude = Decimal.digitCount n := by
  have hle : x.denominator ≤ x.numerator := by
    rw [h.2]
    exact Nat.le_mul_of_pos_left _ hn
  rw [magnitude, if_pos hle, h.2, Nat.mul_div_cancel n x.denominator_pos]

/-- No finite number has more than 309 digits before the point. -/
theorem digitCount_le_of_hasMagnitude : Decimal.digitCount n ≤ 309 := by
  rw [Decimal.digitCount_le_iff hn (by decide)]
  have hexp : x.exponent.toNat ≤ 971 := by
    have hlt := isFinite_iff.mp h.1
    have hdiv : x.rank / magnitudesPerExponent < 2047 := by
      rw [Nat.div_lt_iff_lt_mul (by decide)]
      exact hlt
    have hmax : max (x.rank / magnitudesPerExponent) 1 ≤ 2046 := by omega
    rw [exponent]
    omega
  have hlt : x.numerator < 2 ^ 53 * 2 ^ 971 := by
    calc x.numerator = x.significand * 2 ^ x.exponent.toNat := rfl
      _ ≤ x.significand * 2 ^ 971 := by gcongr; decide
      _ < 2 ^ 53 * 2 ^ 971 := by gcongr; exact x.significand_lt
  have hle : n ≤ x.numerator := by
    rw [h.2]
    exact Nat.le_mul_of_pos_right n x.denominator_pos
  exact lt_of_le_of_lt hle (lt_trans hlt (by decide +kernel))

/-- The exact digits of an integral number read back. -/
theorem ofDecimal_of_hasMagnitude : ofDecimal x.negative ⟨n, 0⟩ = x := by
  have hle := digitCount_le_of_hasMagnitude h hn
  have hlow : ¬ ((n = 0) ∨ Decimal.magnitude ⟨n, 0⟩ < -330) := by
    simp only [Decimal.magnitude]
    omega
  have hhigh : ¬ Decimal.magnitude ⟨n, 0⟩ > 310 := by
    simp only [Decimal.magnitude]
    omega
  rw [ofDecimal, if_neg (by simpa using hlow), if_neg hhigh]
  simpa using ofRatio_of_hasMagnitude h hn

/-- With as many digits as it has before the point, an integral number is written exactly. -/
theorem isSome_decimalOf?_of_hasMagnitude (tie : Tie) :
    (decimalOf? tie x (Decimal.digitCount n)).isSome := by
  have hexp : x.magnitude - (Decimal.digitCount n : Int) = 0 := by
    rw [magnitude_of_hasMagnitude h hn]
    omega
  have hnearest : roundedQuotient (x.numerator * Nat.pow 10 (-(0 : Int)).toNat)
      (x.denominator * Nat.pow 10 (0 : Int).toNat) tie = n := by
    rw [h.2, show (-(0 : Int)).toNat = 0 from rfl, show ((0 : Int)).toNat = 0 from rfl,
      show Nat.pow 10 0 = 1 from rfl, Nat.mul_one, Nat.mul_one]
    exact roundedQuotient_mul n _ x.denominator_pos tie
  simp only [decimalOf?, hexp, hnearest]
  rw [if_pos (ofDecimal_of_hasMagnitude h hn)]
  rfl

/-- The first hit comes no later than the exact digits do. -/
theorem exists_count_of_findSome? {tie : Tie} {d : Decimal}
    (hfound : (List.range' 1 17).findSome? (decimalOf? tie x) = some d) :
    ∃ count ≤ Decimal.digitCount n, decimalOf? tie x count = some d := by
  have hpos := Decimal.digitCount_pos hn
  by_cases hc : Decimal.digitCount n ≤ 17
  · rw [show 17 = Decimal.digitCount n + (17 - Decimal.digitCount n) by omega,
      ← List.range'_append_1, List.findSome?_append] at hfound
    have hsome : ((List.range' 1 (Decimal.digitCount n)).findSome? (decimalOf? tie x)).isSome := by
      rw [List.findSome?_isSome_iff]
      exact ⟨Decimal.digitCount n, List.mem_range'_1.mpr ⟨hpos, by omega⟩,
        isSome_decimalOf?_of_hasMagnitude h hn tie⟩
    obtain ⟨e, he⟩ := Option.isSome_iff_exists.mp hsome
    rw [he, Option.some_or] at hfound
    obtain ⟨count, hmem, hd⟩ := List.exists_of_findSome?_eq_some he
    exact ⟨count, by have := List.mem_range'_1.mp hmem; omega, hfound ▸ hd⟩
  · obtain ⟨count, hmem, hd⟩ := List.exists_of_findSome?_eq_some hfound
    exact ⟨count, by have := List.mem_range'_1.mp hmem; omega, hd⟩

/-- A number with more than 17 digits before the point has none after it. -/
theorem exactDecimal_of_hasMagnitude (hlarge : 17 < Decimal.digitCount n) :
    x.exactDecimal = ⟨n, 0⟩ := by
  have hbig : 10 ^ 17 ≤ n := by
    by_contra hlt
    have hle := (Decimal.digitCount_le_iff hn (by decide : 0 < 17)).mpr (Nat.not_le.mp hlt)
    omega
  have hexp : 0 ≤ x.exponent := by
    by_contra hneg
    have hnum : x.numerator = x.significand := by
      rw [numerator, show x.exponent.toNat = 0 by omega]
      exact Nat.mul_one _
    have hle : n ≤ x.significand := by
      rw [← hnum, h.2]
      exact Nat.le_mul_of_pos_right n x.denominator_pos
    have hsig := x.significand_lt
    norm_num at hbig hsig
    omega
  have hden : x.denominator = 1 := by
    rw [denominator, show (-x.exponent).toNat = 0 by omega]
  rw [exactDecimal, if_pos hexp, h.2, hden, Nat.mul_one]

/-- The digits that are found for an integral number have no fraction. -/
theorem exists_decimalOf?_of_hasMagnitude (tie : Tie) :
    ∃ d, ((List.range' 1 17).findSome? (decimalOf? tie x)).getD x.exactDecimal = d ∧
      0 ≤ d.exponent ∧ ofDecimal x.negative d = x := by
  refine ⟨_, rfl, ?_⟩
  cases hfound : (List.range' 1 17).findSome? (decimalOf? tie x) with
  | some d =>
    obtain ⟨count, hle, hd⟩ := exists_count_of_findSome? h hn hfound
    obtain ⟨hread, hexp⟩ := ofDecimal_of_decimalOf? hd
    rw [magnitude_of_hasMagnitude h hn] at hexp
    exact ⟨by rw [Option.getD_some]; omega, hread⟩
  | none =>
    have hlarge : 17 < Decimal.digitCount n := by
      by_contra hle
      have hpos := Decimal.digitCount_pos hn
      have hnone := List.findSome?_eq_none_iff.mp hfound (Decimal.digitCount n)
        (List.mem_range'_1.mpr ⟨hpos, by omega⟩)
      have hsome := isSome_decimalOf?_of_hasMagnitude h hn tie
      rw [hnone] at hsome
      cases hsome
    rw [Option.getD_none, exactDecimal_of_hasMagnitude h hn hlarge]
    exact ⟨le_refl _, ofDecimal_of_hasMagnitude h hn⟩

/-- **The shortest digits of an integral number have no fraction**, and they read back. -/
theorem shortest_of_hasMagnitude (tie : Tie) :
    0 ≤ (x.shortest tie).exponent ∧ 0 < (x.shortest tie).digits ∧
      ofDecimal x.negative
        ⟨(x.shortest tie).digits * 10 ^ (x.shortest tie).exponent.toNat, 0⟩ = x := by
  obtain ⟨d, hd, hexp, hread⟩ := exists_decimalOf?_of_hasMagnitude h hn tie
  have hdigits := h.pos_digits hn hread
  rw [shortest, hd]
  obtain ⟨hnonneg, hvalue⟩ := Decimal.normalize_of_exponent_nonneg hexp
  refine ⟨hnonneg, ?_, ?_⟩
  · have hpos : 0 < d.digits * 10 ^ d.exponent.toNat :=
      Nat.mul_pos hdigits (Nat.pow_pos (by decide))
    rw [← hvalue] at hpos
    exact Nat.pos_of_mul_pos_right hpos
  · rw [hvalue, ofDecimal_integer _ hdigits hexp]
    exact hread

end Shortest

end Binary

namespace Script

open Binary

variable {x : Binary} {n : Nat}

/-- The sign that a numeral begins with. -/
def signText (negative : Bool) : Text := if negative then ['-'] else []

/-- **The numeral of an integral number** is a sign and decimal digits that read back. -/
theorem number_of_hasMagnitude (h : x.HasMagnitude n) (hn : 0 < n) :
    ∃ m, number x = signText x.negative ++ Text.ofNat m ∧ ofDecimal x.negative ⟨m, 0⟩ = x := by
  obtain ⟨hexp, hpos, hread⟩ := shortest_of_hasMagnitude h hn numberLayout.tie
  refine ⟨_, ?_, hread⟩
  have hle := h.le_rank hn
  have hzero : x.isZero = false := by
    rw [isZero, decide_eq_false_iff_not]
    rw [magnitudesPerExponent_eq] at hle
    omega
  have hplain : numberLayout.isPlain (x.shortest numberLayout.tie) = true := rfl
  have htext : numberLayout.plain (x.shortest numberLayout.tie) = Text.ofNat
      ((x.shortest numberLayout.tie).digits *
        10 ^ (x.shortest numberLayout.tie).exponent.toNat) := by
    rw [Text.ofNat_mul_pow hpos, Layout.plain, if_pos hexp]
    simp [numberLayout]
  rw [number, hzero, h.1]
  simp only [Bool.false_eq_true, if_false, if_true, Layout.render, hzero, hplain, Bool.or_true,
    htext]
  cases x.negative <;> rfl

theorem number_of_isZero (h : x.isZero = true) : number x = Text.ofNat 0 := by
  rw [number, h]
  rfl

theorem isZero_zero (negative : Bool) : (zero negative).isZero = true := by
  rw [isZero, zero, rank_ofRank negative (Nat.zero_le _)]
  rfl

theorem ofDecimal_zero (negative : Bool) : ofDecimal negative ⟨0, 0⟩ = zero negative := by
  rw [ofDecimal, if_pos (by rfl)]

/-- A number without the sign of a zero. -/
def unsignedZero (x : Binary) : Binary := if x.isZero then zero false else x

/-- **The numeral of a finite number that has been rounded** is a sign and decimal digits that read
back, the sign of a zero aside. -/
theorem number_roundToInteger (h : x.isFinite = true) :
    ∃ s m, number x.roundToInteger = signText s ++ Text.ofNat m ∧
      ofDecimal s ⟨m, 0⟩ = unsignedZero x.roundToInteger := by
  obtain ⟨⟨n, hn⟩, -⟩ := exists_hasMagnitude_roundToInteger h
  cases hz : x.roundToInteger.isZero with
  | true =>
    refine ⟨false, 0, number_of_isZero hz, ?_⟩
    rw [unsignedZero, if_pos hz, ofDecimal_zero]
  | false =>
    have hpos : 0 < n := by
      rw [Nat.pos_iff_ne_zero]
      rintro rfl
      rw [hn.eq_zero, isZero_zero] at hz
      cases hz
    obtain ⟨m, hnumber, hread⟩ := number_of_hasMagnitude hn hpos
    refine ⟨_, m, hnumber, ?_⟩
    rw [unsignedZero, if_neg (by rw [hz]; decide), hread]

end Script

end InterviewPlan
