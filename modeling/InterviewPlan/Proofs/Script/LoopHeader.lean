import InterviewPlan.Proofs.Script.Pattern

/-!
# Reading the header of a loop

The item of a loop ends where the first range begins: at blanks, the word `in`, and an expression.
So a header that is written from an item and a range reads back if no range begins inside the item,
and one that has been read is such a header.

## Main definitions

* `Pattern.rangeAt?`: the range that begins at the front of a text
* `Pattern.BeginsRange`: a text that begins with blanks, `in`, a blank and one more character
* `Pattern.Separable`: an item and a range that are read back from a header

## Main results

* `Pattern.itemAndRange?_eq_some_iff`: the item is the shortest text before a range
* `Pattern.loopHeader?_of_separable`: a header of separable parts is read back
* `Pattern.separable_of_loopHeader?`: a header that is read has separable parts
-/

namespace InterviewPlan

open Text

namespace Pattern

variable {s t u v w taken item range : Text}

/-- What holds of every rest of a text holds of the rest behind its first character. -/
theorem forall_append_cons {p : Text → Prop} {c : Char} {r : Text} :
    (∀ v w, c :: r = v ++ w → v ≠ [] → p w) ↔ p r ∧ ∀ v w, r = v ++ w → v ≠ [] → p w := by
  constructor
  · intro h
    exact ⟨h [c] r rfl (by simp), fun v w hr hv => h (c :: v) w (by rw [hr]; rfl) (by simp)⟩
  · rintro ⟨hr, h⟩ v w hs hv
    obtain ⟨a, v', rfl⟩ := List.exists_cons_of_ne_nil hv
    obtain ⟨rfl, rfl⟩ := List.cons.inj hs
    cases v' with
    | nil => exact hr
    | cons e v' => exact h _ w rfl (by simp)

/-! ### Where a range begins -/

/-- The range that begins at the front of a text: the expression after blanks and `in`. -/
def rangeAt? (t : Text) : Option Text := (wordAfterBlanks? "in".toList t).bind clause?

/-- A text that begins with blanks, the word `in`, a blank and one more character. -/
def BeginsRange (t : Text) : Prop :=
  ∃ b d z, t = b ++ 'i' :: 'n' :: d :: z ∧ b ≠ [] ∧ (∀ c ∈ b, isBlank c = true) ∧
    isBlank d = true ∧ z ≠ []

/-- An expression is read from two characters or more, the first of which is blank. -/
theorem clause?_isSome_iff (hfeed : '\n' ∉ t) :
    (clause? t).isSome ↔ ∃ d z, t = d :: z ∧ isBlank d = true ∧ z ≠ [] := by
  cases t with
  | nil => simp [clause?]
  | cons d z =>
    have hz : '\n' ∉ z := List.not_mem_of_not_mem_cons hfeed
    cases hd : isBlank d with
    | false => simp [clause?, hd]
    | true =>
      rw [clause?, if_pos (by simp [hd])]
      dsimp only
      split
      · rw [Option.isSome_map, List.find?_isSome]
        constructor
        · rintro ⟨c, hc, -⟩
          exact ⟨d, z, rfl, hd, List.ne_nil_of_mem (List.mem_reverse.mp hc)⟩
        · rintro ⟨d', z', heq, -, hne⟩
          obtain ⟨-, rfl⟩ := List.cons.inj heq
          obtain ⟨c, r, rfl⟩ := List.exists_cons_of_ne_nil hne
          exact ⟨c, by simp, by simpa using fun h => hz (by simp [h])⟩
      · next hne =>
        have htrim : '\n' ∉ trim (d :: z) := fun h => hfeed (mem_of_mem_trim h)
        rw [if_neg (by simpa using htrim)]
        refine ⟨fun _ => ⟨d, z, rfl, hd, ?_⟩, fun _ => rfl⟩
        rintro rfl
        exact hne (List.isEmpty_iff.mpr (trim_eq_nil_iff.mpr (by simp [hd])))

theorem rangeAt?_eq_some (h : rangeAt? t = some range) :
    ∃ b z, t = b ++ 'i' :: 'n' :: z ∧ b ≠ [] ∧ (∀ c ∈ b, isBlank c = true) ∧
      clause? z = some range := by
  obtain ⟨z, hz, hclause⟩ := Option.bind_eq_some_iff.mp h
  obtain ⟨b, hne, hb, rfl⟩ := (wordAfterBlanks?_eq_some_iff (by decide)).mp hz
  exact ⟨b, z, rfl, hne, hb, hclause⟩

theorem rangeAt?_append {b z : Text} (hne : b ≠ []) (hb : ∀ c ∈ b, isBlank c = true) :
    rangeAt? (b ++ 'i' :: 'n' :: z) = clause? z := by
  have hword : wordAfterBlanks? "in".toList (b ++ 'i' :: 'n' :: z) = some z :=
    (wordAfterBlanks?_eq_some_iff (by decide)).mpr ⟨b, hne, hb, rfl⟩
  rw [rangeAt?, hword, Option.bind_some]

/-- **Where a range begins** on a line. -/
theorem rangeAt?_isSome_iff (hfeed : '\n' ∉ t) : (rangeAt? t).isSome ↔ BeginsRange t := by
  constructor
  · intro h
    obtain ⟨range, hrange⟩ := Option.isSome_iff_exists.mp h
    obtain ⟨b, z, rfl, hne, hb, hclause⟩ := rangeAt?_eq_some hrange
    have hz : '\n' ∉ z := fun h => hfeed (List.mem_append_right b (by simp [h]))
    obtain ⟨d, z', rfl, hd, hz'⟩ := (clause?_isSome_iff hz).mp (by simp [hclause])
    exact ⟨b, d, z', rfl, hne, hb, hd, hz'⟩
  · rintro ⟨b, d, z, rfl, hne, hb, hd, hz⟩
    have hfeed' : '\n' ∉ d :: z := fun h => hfeed (List.mem_append_right b (by simp [h]))
    rw [rangeAt?_append hne hb, clause?_isSome_iff hfeed']
    exact ⟨d, z, rfl, hd, hz⟩

theorem rangeAt?_eq_none_iff (hfeed : '\n' ∉ t) : rangeAt? t = none ↔ ¬ BeginsRange t := by
  rw [← rangeAt?_isSome_iff hfeed, Option.not_isSome_iff_eq_none]

/-! ### The shortest item -/

/-- **The item is the shortest text before a range**, and not empty. -/
theorem itemAndRange?_eq_some_iff :
    itemAndRange? taken s = some (item, range) ↔
      ∃ u r, s = u ++ r ∧ u ≠ [] ∧ '\n' ∉ u ∧ item = taken.reverse ++ u ∧
        rangeAt? r = some range ∧
        ∀ v w, u = v ++ w → v ≠ [] → w ≠ [] → rangeAt? (w ++ r) = none := by
  induction s generalizing taken with
  | nil =>
    refine ⟨nofun, ?_⟩
    rintro ⟨u, r, hs, hne, -⟩
    exact absurd (List.append_eq_nil_iff.mp hs.symm).1 hne
  | cons c r ih =>
    by_cases hc : c = '\n'
    · rw [itemAndRange?, if_pos hc]
      refine ⟨nofun, ?_⟩
      rintro ⟨u, r', hs, hne, hfeed, -⟩
      obtain ⟨a, u', rfl⟩ := List.exists_cons_of_ne_nil hne
      obtain rfl := (List.cons.inj hs).1
      exact absurd hc.symm (List.ne_of_not_mem_cons hfeed)
    rw [itemAndRange?, if_neg hc]
    cases hr : rangeAt? r with
    | some range' =>
      have hr' : (wordAfterBlanks? "in".toList r).bind clause? = some range' := hr
      rw [hr']
      constructor
      · intro h
        obtain ⟨rfl, rfl⟩ := Prod.mk.inj (Option.some.inj h)
        refine ⟨[c], r, rfl, by simp, by simpa using Ne.symm hc, by simp, hr, ?_⟩
        intro v w hu hv hw
        obtain ⟨a, v', rfl⟩ := List.exists_cons_of_ne_nil hv
        have hnil := (List.cons.inj hu).2
        exact absurd (List.append_eq_nil_iff.mp hnil.symm).2 hw
      · rintro ⟨u, r', hs, hne, -, rfl, hrange, hfirst⟩
        obtain ⟨a, u', rfl⟩ := List.exists_cons_of_ne_nil hne
        obtain ⟨rfl, rfl⟩ := List.cons.inj hs
        cases u' with
        | nil =>
          obtain rfl := Option.some.inj (hrange.symm.trans hr)
          simp
        | cons e u' =>
          rw [List.append_eq, hfirst [c] (e :: u') rfl (by simp) (by simp)] at hr
          cases hr
    | none =>
      have hr' : (wordAfterBlanks? "in".toList r).bind clause? = none := hr
      rw [hr']
      dsimp only
      rw [ih]
      constructor
      · rintro ⟨u, r', rfl, hne, hfeed, rfl, hrange, hfirst⟩
        refine ⟨c :: u, r', rfl, by simp, by simpa [hfeed] using Ne.symm hc, by simp, hrange, ?_⟩
        exact forall_append_cons.mpr ⟨fun _ => hr, hfirst⟩
      · rintro ⟨u, r', hs, hne, hfeed, rfl, hrange, hfirst⟩
        obtain ⟨a, u', rfl⟩ := List.exists_cons_of_ne_nil hne
        obtain ⟨rfl, rfl⟩ := List.cons.inj hs
        refine ⟨u', r', rfl, ?_, List.not_mem_of_not_mem_cons hfeed, by simp, hrange, ?_⟩
        · rintro rfl
          rw [List.append_eq, List.nil_append, hrange] at hr
          cases hr
        · exact (forall_append_cons.mp hfirst).2

/-- No item is found where no range begins. -/
theorem itemAndRange?_eq_none_iff (hfeed : '\n' ∉ s) :
    itemAndRange? taken s = none ↔ ∀ v w, s = v ++ w → v ≠ [] → ¬ BeginsRange w := by
  induction s generalizing taken with
  | nil =>
    refine ⟨fun _ v w hs hv => absurd (List.append_eq_nil_iff.mp hs.symm).1 hv, fun _ => rfl⟩
  | cons c r ih =>
    obtain ⟨hc, hr⟩ := List.ne_and_not_mem_of_not_mem_cons hfeed
    rw [itemAndRange?, if_neg hc.symm, forall_append_cons]
    cases hrange : (wordAfterBlanks? "in".toList r).bind clause? with
    | some range =>
      have hbegins : BeginsRange r :=
        (rangeAt?_isSome_iff hr).mp (Option.isSome_iff_exists.mpr ⟨range, hrange⟩)
      exact ⟨nofun, fun h => absurd hbegins h.1⟩
    | none =>
      have hnone : ¬ BeginsRange r := (rangeAt?_eq_none_iff hr).mp hrange
      dsimp only
      rw [ih hr]
      exact ⟨fun h => ⟨hnone, h⟩, fun h => h.2⟩

/-! ### Separable parts -/

/-- An item and a range that are read back from a header.  No range begins inside the item.  An item
that begins with a blank is that blank alone, and then none begins behind `in` either. -/
structure Separable (item range : Text) : Prop where
  ne_nil : item ≠ []
  notMem_lineFeed : '\n' ∉ item
  clause : clause? (' ' :: range) = some range
  inside : ∀ v w, item = v ++ w → v ≠ [] → w ≠ [] → ¬ BeginsRange (w ++ " in ".toList ++ range)
  blank : ∀ c ∈ item.head?, isBlank c = true →
    item = [c] ∧ ∀ v w, "in ".toList ++ range = v ++ w → v ≠ [] → ¬ BeginsRange w

theorem Separable.notMem_lineFeed_range (h : Separable item range) : '\n' ∉ range :=
  (clause?_eq_some h.clause).1.2

/-- What stands between `for` and the colon. -/
def headerText (item range : Text) : Text := ' ' :: (item ++ " in ".toList ++ range)

theorem Separable.itemAndRange? (h : Separable item range) :
    itemAndRange? [] (item ++ " in ".toList ++ range) = some (item, range) := by
  have hfeed : '\n' ∉ " in ".toList ++ range := by
    simpa using h.notMem_lineFeed_range
  rw [itemAndRange?_eq_some_iff]
  refine ⟨item, " in ".toList ++ range, by rw [List.append_assoc], h.ne_nil, h.notMem_lineFeed, rfl,
    ?_, ?_⟩
  · exact (rangeAt?_append (b := [' ']) (by simp) (by simp)).trans h.clause
  · intro v w hitem hv hw
    have hw' : '\n' ∉ w := fun hm => h.notMem_lineFeed (hitem ▸ List.mem_append_right v hm)
    rw [rangeAt?_eq_none_iff (by simpa using ⟨hw', h.notMem_lineFeed_range⟩), ← List.append_assoc]
    exact h.inside v w hitem hv hw

/-- Of the starts that are tried, the last one comes first. -/
theorem findSome?_reverse_range {α : Type} {f : Nat → Option α} {k : Nat} {x : α} :
    (List.range k).reverse.findSome? f = some x ↔
      ∃ n, n < k ∧ f n = some x ∧ ∀ m, n < m → m < k → f m = none := by
  induction k with
  | zero => simp
  | succ k ih =>
    rw [List.range_succ, List.reverse_append, List.reverse_singleton, List.singleton_append,
      List.findSome?_cons]
    cases hk : f k with
    | some y =>
      constructor
      · intro h
        obtain rfl := Option.some.inj h
        exact ⟨k, by omega, hk, fun m h₁ h₂ => by omega⟩
      · rintro ⟨n, hn, hfn, hlast⟩
        rcases Nat.lt_or_ge n k with hlt | hge
        · rw [hlast k hlt (by omega)] at hk
          cases hk
        · obtain rfl : n = k := by omega
          exact hk.symm.trans hfn
    | none =>
      dsimp only
      rw [ih]
      constructor
      · rintro ⟨n, hn, hfn, hlast⟩
        refine ⟨n, by omega, hfn, fun m h₁ h₂ => ?_⟩
        rcases Nat.lt_or_ge m k with hlt | hge
        · exact hlast m h₁ hlt
        · obtain rfl : m = k := by omega
          exact hk
      · rintro ⟨n, hn, hfn, hlast⟩
        have hne : n ≠ k := by
          rintro rfl
          rw [hk] at hfn
          cases hfn
        exact ⟨n, by omega, hfn, fun m h₁ h₂ => hlast m h₁ (by omega)⟩

/-- **A header of separable parts is read back.** -/
theorem loopHeader?_of_separable (h : Separable item range) :
    loopHeader? (headerText item range) = some (item, range) := by
  rw [loopHeader?, findSome?_reverse_range]
  obtain ⟨c, item', rfl⟩ := List.exists_cons_of_ne_nil h.ne_nil
  cases hc : isBlank c with
  | false =>
    have hblanks : ((headerText (c :: item') range).takeWhile isBlank).length = 1 := by
      simp [headerText, hc]
    refine ⟨0, by omega, ?_, fun m h₁ h₂ => by omega⟩
    exact h.itemAndRange?
  | true =>
    obtain ⟨hitem, hafter⟩ := h.blank c (by simp) hc
    obtain rfl : item' = [] := by simpa using hitem
    have hfeed : '\n' ∉ "in ".toList ++ range := by simpa using h.notMem_lineFeed_range
    have hblanks : ((headerText [c] range).takeWhile isBlank).length = 3 := by
      simp [headerText, hc, show isBlank 'i' = false by decide]
    refine ⟨0, by omega, h.itemAndRange?, ?_⟩
    intro m h₁ h₂
    obtain rfl | rfl : m = 1 ∨ m = 2 := by omega
    · have hdrop : (headerText [c] range).drop 2 = ' ' :: ("in ".toList ++ range) := rfl
      rw [hdrop, itemAndRange?_eq_none_iff (by simpa using h.notMem_lineFeed_range),
        forall_append_cons]
      refine ⟨?_, hafter⟩
      rintro ⟨b, d, z, hw, hne, hb, -⟩
      obtain ⟨e, b', rfl⟩ := List.exists_cons_of_ne_nil hne
      have hhead : 'i' = e := (List.cons.inj hw).1
      exact absurd (hb e List.mem_cons_self) (by rw [← hhead]; decide)
    · have hdrop : (headerText [c] range).drop 3 = "in ".toList ++ range := rfl
      rw [hdrop, itemAndRange?_eq_none_iff hfeed]
      exact hafter

/-- A range that begins in front of the word `in` begins inside the item, or the item has come to an
end. -/
theorem BeginsRange.cases (h : BeginsRange (w ++ " in ".toList ++ range)) :
    (∀ c ∈ w, isBlank c = true) ∨
      ∃ b r, w = b ++ 'i' :: 'n' :: r ∧ b ≠ [] ∧ (∀ c ∈ b, isBlank c = true) ∧
        ∀ c ∈ r.head?, isBlank c = true := by
  obtain ⟨b, d, z, heq, hne, hb, hd, hz⟩ := h
  rw [List.append_assoc] at heq
  rcases List.append_eq_append_iff.mp heq with ⟨b', rfl, hrest⟩ | ⟨w', rfl, hrest⟩
  · exact Or.inl fun c hc => hb c (List.mem_append_left b' hc)
  · cases w' with
    | nil => exact Or.inl fun c hc => hb c (by simpa using hc)
    | cons i w' =>
      obtain ⟨rfl, hn⟩ := List.cons.inj hrest
      clear hrest
      cases w' with
      | nil => exact absurd (List.cons.inj hn).1 (by decide)
      | cons n w' =>
        obtain ⟨rfl, hd'⟩ := List.cons.inj hn
        clear hn
        refine Or.inr ⟨b, w', rfl, hne, hb, ?_⟩
        cases w' with
        | nil => simp
        | cons e w' =>
          obtain ⟨rfl, -⟩ := List.cons.inj hd'
          simpa using hd

/-- **Parts that are written plainly are separable**: both stand on a line, and the item has no `in`
between blanks, not even at its end. -/
theorem separable_of_isInline (hitem : IsInline item) (hrange : IsInline range)
    (hin : ∀ b d, isBlank b = true → isBlank d = true → ¬ [b, 'i', 'n', d] <:+: item ++ [' ']) :
    Separable item range where
  ne_nil := hitem.1
  notMem_lineFeed := hitem.2.2
  clause := clause?_space hrange
  inside := by
    intro v w hvw hv hw hbegins
    rcases hbegins.cases with hblank | ⟨b, r, rfl, hne, hb, hr⟩
    · have hlast := (trim_eq_self_iff.mp hitem.2.1).2 (w.getLast hw) (by
        rw [hvw, List.getLast?_append_of_ne_nil _ hw, List.getLast?_eq_some_getLast hw]
        rfl)
      rw [hblank _ (List.getLast_mem hw)] at hlast
      cases hlast
    · obtain ⟨b', e, rfl⟩ := (List.eq_nil_or_concat b).resolve_left hne
      rw [List.concat_eq_append] at hb hvw
      have he : isBlank e = true := hb e (by simp)
      cases r with
      | nil => exact hin e ' ' he (by simp) ⟨v ++ b', [], by simp [hvw]⟩
      | cons d r =>
        exact hin e d he (hr d rfl) ⟨v ++ b', r ++ [' '], by simp [hvw]⟩
  blank := by
    intro c hc hblank
    rw [(trim_eq_self_iff.mp hitem.2.1).1 c hc] at hblank
    cases hblank

/-! ### What a header reads -/

/-- What is put in front of a range begins one as well if it does so in a header. -/
theorem BeginsRange.append (hu : BeginsRange u) (h : BeginsRange (w ++ " in ".toList ++ range)) :
    BeginsRange (w ++ u) := by
  obtain ⟨b, d, z, rfl, hne, hb, hd, hz⟩ := hu
  rcases h.cases with hw | ⟨b', r, rfl, hne', hb', hr⟩
  · refine ⟨w ++ b, d, z, by rw [List.append_assoc], by simp [hne], ?_, hd, hz⟩
    intro c hc
    rcases List.mem_append.mp hc with hc | hc
    · exact hw c hc
    · exact hb c hc
  · obtain ⟨e, b, rfl⟩ := List.exists_cons_of_ne_nil hne
    cases r with
    | nil => exact ⟨b', e, b ++ 'i' :: 'n' :: d :: z, by simp, hne', hb', hb e (by simp), by simp⟩
    | cons e' r =>
      exact ⟨b', e', r ++ (e :: b) ++ 'i' :: 'n' :: d :: z, by simp, hne', hb', hr e' rfl, by simp⟩

/-- A range that begins behind `in` begins there whatever blanks stand around the expression. -/
theorem BeginsRange.behind {z : Text} (h : BeginsRange w) (hz : clause? z = some range)
    (heq : "in ".toList ++ range = v ++ w) (hv : v ≠ []) :
    ∃ v' w', "in".toList ++ z = v' ++ w' ∧ v' ≠ [] ∧ BeginsRange w' := by
  obtain ⟨b, d, x, rfl, hne, hb, hd, hx⟩ := h
  obtain ⟨e, b, rfl⟩ := List.exists_cons_of_ne_nil hne
  have he := hb e List.mem_cons_self
  obtain ⟨i, v, rfl⟩ := List.exists_cons_of_ne_nil hv
  obtain ⟨-, heq⟩ := List.cons.inj (show 'i' :: 'n' :: ' ' :: range = _ from heq)
  cases v with
  | nil =>
    obtain ⟨rfl, -⟩ := List.cons.inj heq
    exact absurd he (by decide)
  | cons n v =>
    obtain ⟨-, heq⟩ := List.cons.inj heq
    obtain ⟨⟨hhead, -⟩, ⟨hrange, rfl⟩ | ⟨c, rfl, -⟩⟩ := clause?_eq_some hz
    · obtain ⟨pre, post, hsplit, hpre, -⟩ := exists_surround z
      have hpre' : pre ≠ [] := by
        rintro rfl
        obtain ⟨c, r, hcr⟩ := List.exists_cons_of_ne_nil hrange
        have hc : isBlank c = false := isBlank_head?_trim (t := z) (by rw [hcr]; rfl)
        rw [hsplit, hcr] at hhead
        simp [hc] at hhead
      cases v with
      | nil =>
        obtain ⟨-, hrange'⟩ := List.cons.inj heq
        refine ⟨"in".toList, pre ++ b ++ 'i' :: 'n' :: d :: (x ++ post), ?_, by simp,
          pre ++ b, d, x ++ post, rfl, by simp [hpre'], ?_, hd, by simp [hx]⟩
        · rw [hsplit, hrange']
          simp
        · intro c hc
          rcases List.mem_append.mp hc with hc | hc
          · exact hpre c hc
          · exact hb c (List.mem_cons_of_mem e hc)
      | cons a v =>
        obtain ⟨-, hrange'⟩ := List.cons.inj heq
        refine ⟨"in".toList ++ pre ++ v, e :: b ++ 'i' :: 'n' :: d :: (x ++ post), ?_, by simp,
          e :: b, d, x ++ post, rfl, by simp, hb, hd, by simp [hx]⟩
        rw [hsplit, hrange']
        simp
    · have hlength := congrArg List.length heq
      have hx' := List.length_pos_iff.mpr hx
      simp at hlength
      omega

/-- The text behind the leading blanks. -/
theorem drop_length_takeWhile (t : Text) : t.drop (t.takeWhile isBlank).length = trimStart t := by
  have h := @List.drop_left _ (t.takeWhile isBlank) (t.dropWhile isBlank)
  rwa [List.takeWhile_append_dropWhile] at h

theorem isBlank_of_mem_take {n : Nat} (hn : n ≤ (t.takeWhile isBlank).length) {c : Char}
    (hc : c ∈ t.take n) : isBlank c = true := by
  rw [← List.takeWhile_append_dropWhile (p := isBlank) (l := t),
    List.take_append_of_le_length hn] at hc
  exact List.mem_takeWhile_imp (List.mem_of_mem_take hc)

/-- Leading blanks may be dropped before a text is trimmed. -/
theorem trimStart_drop {n : Nat} (hn : n ≤ (t.takeWhile isBlank).length) :
    trimStart (t.drop n) = trimStart t := by
  conv_rhs => rw [← List.take_append_drop n t]
  exact (trimStart_append (fun c => isBlank_of_mem_take hn) _).symm

/-- **A header that is read has separable parts.** -/
theorem separable_of_loopHeader? (hfeed : '\n' ∉ t) (h : loopHeader? t = some (item, range)) :
    Separable item range := by
  -- the item begins behind `n + 1` blanks, and it was found there first
  rw [loopHeader?, findSome?_reverse_range] at h
  obtain ⟨n, hn, hfound, hlast⟩ := h
  obtain ⟨u, r, hdrop, hne, hfeed', hitem, hrange, hfirst⟩ := itemAndRange?_eq_some_iff.mp hfound
  obtain rfl : item = u := hitem
  obtain ⟨b, z, rfl, hbne, hb, hclause⟩ := rangeAt?_eq_some hrange
  have hfeedDrop : ∀ m, '\n' ∉ t.drop m := fun m hm => hfeed (List.mem_of_mem_drop hm)
  have hfeedRange : '\n' ∉ b ++ 'i' :: 'n' :: z := fun hm =>
    hfeedDrop (n + 1) (hdrop ▸ List.mem_append_right item hm)
  have hbegins : BeginsRange (b ++ 'i' :: 'n' :: z) :=
    (rangeAt?_isSome_iff hfeedRange).mp (by rw [hrange]; rfl)
  refine ⟨hne, hfeed', clause?_reread hclause, ?_, ?_⟩
  · intro v w hvw hv hw hinside
    have hfeedInside : '\n' ∉ w ++ (b ++ 'i' :: 'n' :: z) := by
      intro hm
      refine hfeedDrop (n + 1) (hdrop ▸ ?_)
      rw [hvw, List.append_assoc]
      exact List.mem_append_right v hm
    exact (rangeAt?_eq_none_iff hfeedInside).mp (hfirst v w hvw hv hw) (hbegins.append hinside)
  · intro c hc hblank
    obtain ⟨w, rfl⟩ := List.head?_eq_some_iff.mp hc
    have hlt : n + 1 < (t.takeWhile isBlank).length := by
      by_contra hge
      have hn' : n + 1 = (t.takeWhile isBlank).length := by omega
      rw [hn', drop_length_takeWhile] at hdrop
      have hc' : isBlank c = false := isBlank_head?_trimStart (t := t) (by rw [hdrop]; rfl)
      rw [hblank] at hc'
      cases hc'
    have hw : w = [] := by
      by_contra hw
      have hnext := hlast (n + 1) (by omega) hlt
      have hdrop' : t.drop (n + 1 + 1) = w ++ (b ++ 'i' :: 'n' :: z) := by
        rw [← List.drop_drop, hdrop]
        rfl
      exact (itemAndRange?_eq_none_iff (hfeedDrop _)).mp hnext w _ hdrop' hw hbegins
    subst hw
    refine ⟨rfl, ?_⟩
    intro v w heq hv hw
    have hstart : t.drop (t.takeWhile isBlank).length = "in".toList ++ z := by
      have hblanks : ∀ a ∈ c :: b, isBlank a = true := List.forall_mem_cons.mpr ⟨hblank, hb⟩
      rw [drop_length_takeWhile, ← trimStart_drop hlt.le, hdrop]
      exact trimStart_append hblanks _
    obtain ⟨v', w', heq', hv', hw'⟩ := hw.behind hclause heq hv
    have hfirst' := hlast ((t.takeWhile isBlank).length - 1) (by omega) (by omega)
    rw [Nat.sub_add_cancel (by omega), itemAndRange?_eq_none_iff (hfeedDrop _), hstart] at hfirst'
    exact hfirst' v' w' heq' hv' hw'

end Pattern

end InterviewPlan
