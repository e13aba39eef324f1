import InterviewPlan.Proofs.Number.Numeral
import InterviewPlan.Proofs.Plan.Flags
import InterviewPlan.Proofs.Script.LoopHeader
import InterviewPlan.Script.Statement

/-!
# Reading statements

Each statement that is written is read as what it was written for.  The forms overlap, so for each
of them the ones that are tried before it have to fail: the calls end in a parenthesis with
something other than an opening one before it, and a header ends in a colon.

## Main definitions

* `Statement.ClosesCall`: a text that ends like a call with an argument
* `Script.progressStep`: the step that a written progress call is read as

## Main results

* `Statement.ofText_enter`, `Statement.ofText_progress`, `Statement.ofText_gather`,
  `Statement.ofText_condition`, `Statement.ofText_repetition`: written statements are read back
-/

namespace InterviewPlan

open Text

theorem Text.beforeEnd?_eq_some_iff {ending s t : Text} :
    beforeEnd? ending t = some s ↔ t = s ++ ending := by
  rw [beforeEnd?, Option.map_eq_some_iff]
  constructor
  · rintro ⟨r, hr, rfl⟩
    rw [List.isPrefixOf?_eq_some_iff_append_eq] at hr
    rw [← List.reverse_reverse t, ← hr, List.reverse_append, List.reverse_reverse]
  · rintro rfl
    exact ⟨s.reverse, by rw [List.isPrefixOf?_eq_some_iff_append_eq, List.reverse_append],
      List.reverse_reverse s⟩

namespace Script

/-- The step that a written progress call is read as.  Percentages are written as whole numbers and
a zero has no sign; an infinity and what is no number are written as words, so that the call asks
for a value. -/
def progressStep : Double → Step
  | .number x =>
    if x.isFinite then .progress (.number (unsignedZero x.roundToInteger))
    else .ask ("set_progress(".toList ++ number x ++ [')'])
  | .nan => .ask "set_progress(NaN)".toList

/-- A percentage is read as a rounded one if it is finite, and as it is written if not. -/
theorem progressStep_cases (value : Double) :
    (∃ x, value = .number x ∧ x.isFinite = true ∧
        progressStep value = .progress (.number (unsignedZero x.roundToInteger))) ∨
      (value.isFinite = false ∧ value.roundToInteger = value ∧
        progressStep value = .ask ("set_progress(".toList ++ float value ++ [')'])) := by
  cases value with
  | number x =>
    cases hfin : x.isFinite with
    | true => exact Or.inl ⟨x, rfl, hfin, if_pos hfin⟩
    | false =>
      have hround := congrArg Double.number (Binary.roundToInteger_of_not_isFinite hfin)
      exact Or.inr ⟨hfin, hround, if_neg (Bool.eq_false_iff.mp hfin)⟩
  | nan => exact Or.inr ⟨rfl, rfl, rfl⟩

end Script

namespace Statement

open Pattern Script

variable {t cond item iter list name : Text} {c : Char}

/-! ### The end of a call -/

/-- A text that ends in a parenthesis, with blanks before it and before them a visible character
that opens no call. -/
def ClosesCall (t : Text) : Prop :=
  ∃ u c b, t = u ++ c :: b ++ [')'] ∧ isBlank c = false ∧ c ≠ '(' ∧ ∀ a ∈ b, isBlank a = true

theorem ClosesCall.append_left (h : ClosesCall t) (s : Text) : ClosesCall (s ++ t) := by
  obtain ⟨u, c, b, rfl, hc⟩ := h
  exact ⟨s ++ u, c, b, by simp, hc⟩

theorem not_closesCall_concat (u : Text) (hc : c ≠ ')') : ¬ ClosesCall (u ++ [c]) := by
  rintro ⟨v, d, b, heq, -⟩
  exact hc (List.singleton_inj.mp (List.append_inj' heq rfl).2)

/-- A call without arguments closes none that has some. -/
theorem not_closesCall_empty (u : Text) : ¬ ClosesCall (u ++ ['(', ')']) := by
  rintro ⟨v, d, b, heq, -, hd, hb⟩
  have heq' : u ++ ['('] = v ++ d :: b := by
    have h : (u ++ ['(']) ++ [')'] = (v ++ d :: b) ++ [')'] := by simpa using heq
    exact (List.append_inj' h rfl).1
  rcases List.eq_nil_or_concat b with rfl | ⟨b, e, rfl⟩
  · have h := (List.append_inj' heq' rfl).2
    exact hd (by simpa using h.symm)
  · have h : u ++ ['('] = (v ++ d :: b) ++ [e] := by simpa using heq'
    have he : '(' = e := by simpa using (List.append_inj' h rfl).2
    have hblank := hb e (by simp)
    rw [← he] at hblank
    exact absurd hblank (by decide)

/-- What is left before a closing parenthesis is blank. -/
theorem closesCall_of_trimStart {rest : Text} (hrest : trimStart rest = [')']) (u : Text)
    (hc : isBlank c = false) (hopen : c ≠ '(') : ClosesCall (u ++ c :: rest) := by
  refine ⟨u, c, rest.takeWhile isBlank, ?_, hc, hopen, fun a ha => List.mem_takeWhile_imp ha⟩
  have hsplit := List.takeWhile_append_dropWhile (p := isBlank) (l := rest)
  rw [show rest.dropWhile isBlank = [')'] from hrest] at hsplit
  rw [List.append_assoc, List.cons_append, hsplit]

theorem exists_of_quoted? {rest : Text} (h : quoted? t = some (name, rest)) :
    ∃ u mark, t = u ++ mark :: rest ∧ isQuotationMark mark = true ∧ name ⊆ t := by
  unfold quoted? at h
  split at h
  · next r =>
    obtain ⟨⟨u, rfl⟩, hsub⟩ := exists_of_quotedBody? h
    exact ⟨'"' :: u, '"', rfl, rfl, fun a ha => List.mem_cons_of_mem _ (hsub ha)⟩
  · next r =>
    obtain ⟨⟨u, rfl⟩, hsub⟩ := exists_of_quotedBody? h
    exact ⟨'\'' :: u, '\'', rfl, rfl, fun a ha => List.mem_cons_of_mem _ (hsub ha)⟩
  · cases h

theorem visible_of_isQuotationMark (h : isQuotationMark c = true) :
    isBlank c = false ∧ c ≠ '(' := by
  rcases Bool.or_eq_true _ _ ▸ h with h | h <;> rw [beq_iff_eq.mp h] <;> decide

theorem visible_of_isDigit (h : c.isDigit = true) : isBlank c = false ∧ c ≠ '(' := by
  refine ⟨Flag.isBlank_of_isWordChar ?_, ?_⟩
  · unfold Flag.isWordChar Char.isAlphanum
    rw [h, Bool.or_true]
  · rintro rfl
    exact absurd h (by decide)

/-- The name of a section stands in the statement. -/
theorem section?_eq_some (h : section? t = some name) : ClosesCall t ∧ name ⊆ t := by
  simp only [section?, Option.bind_eq_bind, Option.bind_eq_some_iff] at h
  obtain ⟨r, hr, ⟨name', rest⟩, hquoted, h⟩ := h
  dsimp only at h
  split at h
  · next hrest =>
    obtain rfl := Option.some.inj h
    obtain ⟨u, mark, hu, hmark, hsub⟩ := exists_of_quoted? hquoted
    have hr' : r <:+ t := ⟨_, List.isPrefixOf?_eq_some_iff_append_eq.mp hr⟩
    obtain ⟨v, rfl⟩ := (trimStart_suffix r).trans hr'
    obtain ⟨hvisible, hopen⟩ := visible_of_isQuotationMark hmark
    refine ⟨?_, fun a ha => List.mem_append_right v (hsub ha)⟩
    rw [hu]
    exact (closesCall_of_trimStart hrest u hvisible hopen).append_left v
  · cases h

/-- A decimal numeral ends in a digit. -/
theorem decimal?_eq_some {d : Decimal} {rest : Text} (h : decimal? t = some (d, rest)) :
    ∃ u c, t = u ++ c :: rest ∧ c.isDigit = true := by
  have hlast : ∀ {w : Text}, w ≠ [] → (∀ a ∈ w, a.isDigit = true) →
      ∃ u c, w = u ++ [c] ∧ c.isDigit = true := by
    intro w hw hdigits
    obtain ⟨u, c, rfl⟩ := (List.eq_nil_or_concat w).resolve_left hw
    exact ⟨u, c, List.concat_eq_append, hdigits c (by simp)⟩
  have hsplit := List.takeWhile_append_dropWhile (p := Char.isDigit) (l := t)
  rw [decimal?] at h
  dsimp only at h
  split at h
  · cases h
  · next hwhole =>
    obtain ⟨-, hrest⟩ := Prod.mk.inj (Option.some.inj h)
    obtain ⟨u, c, hu, hc⟩ := hlast (by simpa using hwhole) fun a ha => List.mem_takeWhile_imp ha
    split at hrest
    · next r hr =>
      split at hrest
      · exact ⟨u, c, by rw [← hsplit, ← hrest, hu]; simp, hc⟩
      · next hfraction =>
        obtain ⟨v, e, hv, he⟩ :=
          hlast (by simpa using hfraction) fun a ha => List.mem_takeWhile_imp ha
        refine ⟨u ++ c :: '.' :: v, e, ?_, he⟩
        rw [hr, List.tail_cons] at hrest
        rw [← hsplit, hr, ← List.takeWhile_append_dropWhile (p := Char.isDigit) (l := r), hrest,
          hv, hu]
        simp
    · exact ⟨u, c, by rw [← hsplit, ← hrest, hu]; simp, hc⟩

theorem closesCall_of_progress? {value : Binary} (h : progress? t = some value) : ClosesCall t := by
  simp only [progress?, Option.bind_eq_bind, Option.bind_eq_some_iff] at h
  obtain ⟨r, hr, h⟩ := h
  have hsuffix : trimStart r <:+ t :=
    (trimStart_suffix r).trans ⟨_, List.isPrefixOf?_eq_some_iff_append_eq.mp hr⟩
  have hclose : ∀ {negative : Bool} {s : Text}, s <:+ t →
      (∃ x, decimal? s = some x ∧
        (if trimStart x.2 = [')'] then some (Binary.ofDecimal negative x.1) else none) =
          some value) →
      ClosesCall t := by
    rintro negative s ⟨v, rfl⟩ ⟨⟨d, rest⟩, hread, hrest⟩
    dsimp only at hrest
    split at hrest
    · next hblank =>
      obtain ⟨u, c, rfl, hc⟩ := decimal?_eq_some hread
      obtain ⟨hvisible, hopen⟩ := visible_of_isDigit hc
      exact (closesCall_of_trimStart hblank u hvisible hopen).append_left v
    · cases hrest
  split at h
  · next s hs => exact hclose ((List.suffix_cons '-' s).trans (hs ▸ hsuffix)) h
  · exact hclose hsuffix h

/-- What is gathered stands before the call, without its blanks. -/
theorem gathered?_eq_some (h : gathered? t = some list) :
    ∃ l b, t = l ++ ".gather(".toList ++ b ++ [')'] ∧ l ≠ [] ∧ '\n' ∉ l ∧ list = trim l ∧
      ∀ a ∈ b, isBlank a = true := by
  simp only [gathered?, Option.bind_eq_bind, Option.bind_eq_some_iff] at h
  obtain ⟨s, hs, l, hl, h⟩ := h
  split at h
  · cases h
  · next hne =>
    rw [Bool.or_eq_true, not_or] at hne
    refine ⟨l, s.rtakeWhile isBlank, ?_, by simpa using hne.1, by simpa using hne.2,
      (Option.some.inj h).symm, fun a ha => List.mem_rtakeWhile_imp ha⟩
    rw [beforeEnd?_eq_some_iff.mp hs, ← beforeEnd?_eq_some_iff.mp hl, trimEnd_eq_rdropWhile,
      List.rdropWhile_append_rtakeWhile]

theorem condition?_eq_some (h : condition? t = some cond) :
    ∃ z, t = "if".toList ++ z ++ [':'] ∧ clause? z = some cond := by
  simp only [condition?, Option.bind_eq_bind, Option.bind_eq_some_iff] at h
  obtain ⟨s, hs, z, hz, h⟩ := h
  refine ⟨z, ?_, h⟩
  rw [← List.isPrefixOf?_eq_some_iff_append_eq.mp hs, beforeEnd?_eq_some_iff.mp hz,
    List.append_assoc]

theorem repetition?_eq_some (h : repetition? t = some (item, iter)) :
    ∃ z, t = "for".toList ++ z ++ [':'] ∧ loopHeader? z = some (item, iter) := by
  simp only [repetition?, Option.bind_eq_bind, Option.bind_eq_some_iff] at h
  obtain ⟨s, hs, z, hz, h⟩ := h
  refine ⟨z, ?_, h⟩
  rw [← List.isPrefixOf?_eq_some_iff_append_eq.mp hs, beforeEnd?_eq_some_iff.mp hz,
    List.append_assoc]

/-! ### Written statements -/

theorem section?_eq_none (h : ¬ ClosesCall t) : section? t = none := by
  rw [Option.eq_none_iff_forall_ne_some]
  intro name hname
  exact h (section?_eq_some hname).1

theorem progress?_eq_none (h : ¬ ClosesCall t) : progress? t = none := by
  rw [Option.eq_none_iff_forall_ne_some]
  intro value hvalue
  exact h (closesCall_of_progress? hvalue)

/-- **The entry into a section** reads back. -/
theorem ofText_enter (name : Text) :
    ofText ("nav.set_section(".toList ++ quote name ++ [')']) = .step (.enter name) := by
  have hread := quoted?_quote name [')']
  have hquote : quote name ++ [')'] = '"' :: (escaped name ++ ['"'] ++ [')']) := rfl
  have hsection : section? ("nav.set_section(".toList ++ quote name ++ [')']) = some name := by
    rw [List.append_assoc, section?, Option.bind_eq_bind,
      List.isPrefixOf?_eq_some_iff_append_eq.mpr rfl, Option.bind_some, hquote, trimStart,
      List.dropWhile_cons_of_neg (by decide), ← hquote, hread]
    rfl
  rw [ofText, hsection]

/-- **The collection of a list** reads back. -/
theorem ofText_gather (h : IsInline list) :
    ofText (list ++ ".gather()".toList) = .step (.gather list) := by
  have hcall : ¬ ClosesCall (list ++ ".gather()".toList) := by
    have hempty := not_closesCall_empty (list ++ ".gather".toList)
    rwa [List.append_assoc] at hempty
  have hgather : gathered? (list ++ ".gather()".toList) = some list := by
    have hend : beforeEnd? [')'] (list ++ ".gather()".toList) =
        some (list ++ ".gather(".toList) := by
      rw [beforeEnd?_eq_some_iff, List.append_assoc]
      rfl
    have htrim : trimEnd (list ++ ".gather(".toList) = list ++ ".gather(".toList := by
      rw [trimEnd_eq_self_iff]
      intro c hc
      obtain rfl : '(' = c := by simpa using hc
      decide
    have hcond : (list.isEmpty || list.contains '\n') = false := by
      simp [h.1, h.2.2]
    rw [gathered?, hend, Option.bind_eq_bind, Option.bind_some, htrim,
      beforeEnd?_eq_some_iff.mpr rfl, Option.bind_some, hcond, h.2.1]
    rfl
  rw [ofText, section?_eq_none hcall, progress?_eq_none hcall, hgather]

/-- A header is none of the calls. -/
theorem not_call_concat_colon (t : Text) :
    progress? (t ++ [':']) = none ∧ section? (t ++ [':']) = none ∧
      gathered? (t ++ [':']) = none := by
  have hcall := not_closesCall_concat t (c := ':') (by decide)
  refine ⟨progress?_eq_none hcall, section?_eq_none hcall, ?_⟩
  rw [Option.eq_none_iff_forall_ne_some]
  intro list hlist
  obtain ⟨l, b, heq, -⟩ := gathered?_eq_some hlist
  exact absurd (List.singleton_inj.mp (List.append_inj' heq rfl).2) (by decide)

/-- **The header of a condition** reads back. -/
theorem ofText_condition (h : clause? (' ' :: cond) = some cond) :
    ofText ("if ".toList ++ cond ++ [':']) = .condition cond := by
  have hcond : condition? ("if ".toList ++ cond ++ [':']) = some cond := by
    have hend : beforeEnd? [':'] (' ' :: cond ++ [':']) = some (' ' :: cond) :=
      beforeEnd?_eq_some_iff.mpr rfl
    have hif : "if".toList.isPrefixOf? ("if ".toList ++ cond ++ [':']) =
        some (' ' :: cond ++ [':']) := rfl
    rw [condition?, hif, Option.bind_eq_bind, Option.bind_some, hend, Option.bind_some, h]
  obtain ⟨hprogress, hsection, hgather⟩ := not_call_concat_colon ("if ".toList ++ cond)
  rw [ofText, hsection, hprogress, hgather, hcond]

/-- **The header of a loop** reads back. -/
theorem ofText_repetition (h : Separable item iter) :
    ofText ("for ".toList ++ item ++ " in ".toList ++ iter ++ [':']) = .repetition item iter := by
  have hcond : condition? ("for ".toList ++ item ++ " in ".toList ++ iter ++ [':']) = none := rfl
  have hloop : repetition? ("for ".toList ++ item ++ " in ".toList ++ iter ++ [':']) =
      some (item, iter) := by
    have hend : beforeEnd? [':'] (headerText item iter ++ [':']) = some (headerText item iter) :=
      beforeEnd?_eq_some_iff.mpr rfl
    have hfor : "for".toList.isPrefixOf? ("for ".toList ++ item ++ " in ".toList ++ iter ++ [':']) =
        some (headerText item iter ++ [':']) := rfl
    rw [repetition?, hfor, Option.bind_eq_bind, Option.bind_some, hend, Option.bind_some,
      loopHeader?_of_separable h]
  obtain ⟨hprogress, hsection, hgather⟩ :=
    not_call_concat_colon ("for ".toList ++ item ++ " in ".toList ++ iter)
  rw [ofText, hsection, hprogress, hgather, hcond, hloop]

/-- **The opening of a snapshot** reads back. -/
theorem ofText_storage : ofText snapshotOpening = .storage := rfl

/-! ### Progress -/

theorem decimal?_ofNat (m : Nat) : decimal? (Text.ofNat m ++ [')']) = some (⟨m, 0⟩, [')']) := by
  have hdigits : ∀ a ∈ Text.ofNat m, a.isDigit = true := fun a => isDigit_of_mem_ofNat
  have htake : (Text.ofNat m ++ [')']).takeWhile Char.isDigit = Text.ofNat m := by
    rw [List.takeWhile_append_of_pos hdigits]
    simp
  have hdrop : (Text.ofNat m ++ [')']).dropWhile Char.isDigit = [')'] := by
    rw [List.dropWhile_append_of_pos hdigits]
    simp
  rw [decimal?]
  dsimp only
  rw [htake, hdrop, if_neg (by simpa using ofNat_ne_nil m)]
  simp [digitsValue_ofNat]
  rfl

/-- The digits of a progress call, with the sign before them. -/
theorem progress?_signText (negative : Bool) (m : Nat) :
    progress? ("set_progress(".toList ++ (signText negative ++ Text.ofNat m) ++ [')']) =
      some (.ofDecimal negative ⟨m, 0⟩) := by
  obtain ⟨d, r, hd⟩ := List.exists_cons_of_ne_nil (ofNat_ne_nil m)
  have hdigit : d.isDigit = true := isDigit_of_mem_ofNat (by rw [hd]; exact List.mem_cons_self)
  have hminus : d ≠ '-' := by
    rintro rfl
    exact absurd hdigit (by decide)
  have hread := decimal?_ofNat m
  rw [List.append_assoc, progress?, List.isPrefixOf?_eq_some_iff_append_eq.mpr rfl,
    Option.bind_eq_bind, Option.bind_some]
  cases negative with
  | true =>
    have hstart : trimStart (signText true ++ Text.ofNat m ++ [')']) =
        '-' :: (Text.ofNat m ++ [')']) := rfl
    rw [hstart]
    split
    next s hs =>
    obtain ⟨rfl, rfl⟩ := Prod.mk.inj hs
    rw [hread]
    rfl
  | false =>
    have hstart : trimStart (signText false ++ Text.ofNat m ++ [')']) = Text.ofNat m ++ [')'] := by
      rw [signText, if_neg (by decide), List.nil_append, hd, trimStart, List.cons_append,
        List.dropWhile_cons_of_neg (by simp [(visible_of_isDigit hdigit).1])]
    rw [hstart]
    split
    next s hs =>
    split at hs
    · next r' hr' =>
      rw [hd] at hr'
      exact absurd (List.cons.inj hr').1 hminus
    · obtain ⟨rfl, rfl⟩ := Prod.mk.inj hs
      rw [hread]
      rfl

theorem number_of_not_isFinite {x : Binary} (h : x.isFinite = false) :
    number x = "-inf".toList ∨ number x = "inf".toList := by
  have hzero : x.isZero = false := by
    rw [Bool.eq_false_iff]
    intro hz
    rw [Binary.isZero, decide_eq_true_iff] at hz
    rw [Binary.isFinite, hz] at h
    exact absurd h (by decide)
  rw [number, hzero, h]
  cases x.negative
  · exact Or.inr rfl
  · exact Or.inl rfl

theorem float_of_not_isFinite {value : Double} (h : value.isFinite = false) :
    float value = "-inf".toList ∨ float value = "inf".toList ∨ float value = "NaN".toList := by
  cases value with
  | number x => exact (number_of_not_isFinite h).imp id Or.inl
  | nan => exact Or.inr (Or.inr rfl)

/-- **A progress call** reads back as it was written. -/
theorem ofText_progress (value : Double) :
    ofText ("set_progress(".toList ++ float value.roundToInteger ++ [')']) =
      .step (progressStep value) := by
  have hsection : ∀ s, section? ("set_progress(".toList ++ s) = none := fun _ => rfl
  rcases progressStep_cases value with ⟨x, rfl, hfin, hstep⟩ | ⟨hfin, hround, hstep⟩
  · obtain ⟨negative, m, hnumber, hread⟩ := number_roundToInteger hfin
    rw [hstep, Double.roundToInteger, float, hnumber, ofText, List.append_assoc, hsection,
      ← List.append_assoc, progress?_signText, hread]
  · rw [hstep, hround]
    rcases float_of_not_isFinite hfin with h | h | h <;> rw [h] <;> rfl

/-! ### Assignments -/

/-- No part of a name assigns to the flag that is derived from the name. -/
theorem assigns_derived (h : t.Sublist name) : assigns (Flag.derived name) t = false := by
  rw [assigns, isPrefixOf?_eq_none (Flag.not_isPrefix_derived h)]
  rfl

end Statement

end InterviewPlan
