import Mathlib.Data.List.Infix
import InterviewPlan.Script.Literal
import InterviewPlan.Script.Pattern
import InterviewPlan.Proofs.Text.Trim

/-!
# Reading the parts of a statement

What the recognisers of parts read from a text, said in terms of how the text is put together: a
quoted text reads as itself, a word is found behind blanks, and an expression is read without the
blanks around it.

## Main definitions

* `Script.escaped`: a text with a backslash before each character that needs one
* `Pattern.guardCondition`: the condition that guards a step by its flag

## Main results

* `Pattern.quoted?_quote`: a quoted text reads as itself
* `Pattern.wordAfterBlanks?_eq_some_iff`: where a word is found behind blanks
* `Pattern.clause?_space`, `Pattern.clause?_reread`: expressions that are read back
* `Pattern.guardedFlag?_guardCondition`: a guard reads back its flag
-/

namespace InterviewPlan

open Text

namespace Script

variable {c : Char}

/-- A text with a backslash before each backslash and each double quotation mark. -/
def escaped (t : Text) : Text := t.flatMap fun c => if c = '\\' || c = '"' then ['\\', c] else [c]

theorem quote_eq (t : Text) : quote t = '"' :: (escaped t ++ ['"']) := rfl

theorem escaped_cons (c : Char) (t : Text) :
    escaped (c :: t) = (if c = '\\' || c = '"' then ['\\', c] else [c]) ++ escaped t :=
  List.flatMap_cons

theorem mem_escaped {t : Text} (h : c ∈ escaped t) : c = '\\' ∨ c ∈ t := by
  obtain ⟨a, ha, hc⟩ := List.mem_flatMap.mp h
  split at hc
  · rcases List.mem_cons.mp hc with rfl | hc
    · exact Or.inl rfl
    · exact Or.inr (List.mem_singleton.mp hc ▸ ha)
  · exact Or.inr (List.mem_singleton.mp hc ▸ ha)

/-- Quoting brings in quotation marks and backslashes only. -/
theorem notMem_quote {t : Text} (h : c ∉ t) (hm : c ≠ '"') (hb : c ≠ '\\') : c ∉ quote t := by
  rw [quote_eq]
  intro hc
  rcases List.mem_cons.mp hc with rfl | hc
  · exact hm rfl
  rcases List.mem_append.mp hc with hc | hc
  · rcases mem_escaped hc with rfl | hc
    · exact hb rfl
    · exact h hc
  · exact hm (List.mem_singleton.mp hc)

theorem notMem_lineFeed_quote {t : Text} (h : '\n' ∉ t) : '\n' ∉ quote t :=
  notMem_quote h (by decide) (by decide)

theorem escaped_eq_self {t : Text} (hm : '"' ∉ t) (hb : '\\' ∉ t) : escaped t = t := by
  induction t with
  | nil => rfl
  | cons c r ih =>
    obtain ⟨hm', hmr⟩ := List.ne_and_not_mem_of_not_mem_cons hm
    obtain ⟨hb', hbr⟩ := List.ne_and_not_mem_of_not_mem_cons hb
    have hc : (c = '\\' || c = '"') = false := by
      rw [Bool.or_eq_false_iff, decide_eq_false_iff_not, decide_eq_false_iff_not]
      exact ⟨hb'.symm, hm'.symm⟩
    rw [escaped, List.flatMap_cons, hc]
    exact congrArg (c :: ·) (ih hmr hbr)

end Script

namespace Pattern

open Script

variable {s t b cond flag rest : Text} {c w : Char}

/-! ### Quoted text -/

theorem quotedBody?_escaped (t rest : Text) :
    quotedBody? '"' (escaped t ++ '"' :: rest) = some (t, rest) := by
  induction t with
  | nil => simp [escaped, quotedBody?]
  | cons c r ih =>
    rw [escaped_cons]
    by_cases hb : c = '\\'
    · simp [hb, quotedBody?, ih]
    by_cases hm : c = '"'
    · simp [hm, quotedBody?, ih]
    · simp [hb, hm, quotedBody?, ih]

/-- **A quoted text reads as itself.** -/
theorem quoted?_quote (t rest : Text) : quoted? (quote t ++ rest) = some (t, rest) := by
  have h := quotedBody?_escaped t rest
  rw [quote_eq]
  simpa [quoted?] using h

/-- What is read from quoted text stands in it, and the closing mark stands before the rest. -/
theorem exists_of_quotedBody? {mark : Char} {body : Text}
    (h : quotedBody? mark t = some (body, rest)) :
    (∃ u, t = u ++ mark :: rest) ∧ body ⊆ t := by
  induction t using quotedBody?.induct mark generalizing body with
  | case1 => cases h
  | case2 r => simp [quotedBody?] at h
  | case3 c r hc ih =>
    rw [quotedBody?, if_neg hc] at h
    obtain ⟨⟨body', rest'⟩, hread, heq⟩ := Option.map_eq_some_iff.mp h
    obtain ⟨rfl, rfl⟩ := Prod.mk.inj heq
    obtain ⟨⟨u, hu⟩, hsub⟩ := ih hread
    refine ⟨⟨'\\' :: c :: u, by rw [hu]; rfl⟩, ?_⟩
    intro a ha
    rcases List.mem_cons.mp ha with rfl | ha
    · simp
    · exact List.mem_cons_of_mem _ (List.mem_cons_of_mem _ (hsub ha))
  | case4 r hc =>
    rw [quotedBody?, if_pos rfl] at h
    · obtain ⟨rfl, rfl⟩ := Prod.mk.inj (Option.some.inj h)
      exact ⟨⟨[], rfl⟩, by simp⟩
    · exact hc
  | case5 r hc hm =>
    rw [quotedBody?, if_neg hm, if_pos rfl] at h
    · cases h
    · exact hc
  | case6 c r hc hm hb ih =>
    rw [quotedBody?, if_neg hm, if_neg hb] at h
    · obtain ⟨⟨body', rest'⟩, hread, heq⟩ := Option.map_eq_some_iff.mp h
      obtain ⟨rfl, rfl⟩ := Prod.mk.inj heq
      obtain ⟨⟨u, hu⟩, hsub⟩ := ih hread
      exact ⟨⟨c :: u, by rw [hu]; rfl⟩, List.cons_subset_cons c hsub⟩
    · exact hc

/-! ### Words and expressions -/

/-- **A word is found behind blanks**, at least one. -/
theorem wordAfterBlanks?_eq_some_iff (hw : isBlank w = false) :
    wordAfterBlanks? (w :: s) t = some rest ↔
      ∃ b, b ≠ [] ∧ (∀ c ∈ b, isBlank c = true) ∧ t = b ++ w :: (s ++ rest) := by
  constructor
  · intro h
    unfold wordAfterBlanks? at h
    split at h
    · next hhead =>
      have hrest := List.isPrefixOf?_eq_some_iff_append_eq.mp h
      refine ⟨t.takeWhile isBlank, ?_, fun c hc => List.mem_takeWhile_imp hc, ?_⟩
      · obtain ⟨c, hc, hblank⟩ := (Option.any_eq_true _ _).mp hhead
        obtain ⟨r, rfl⟩ := List.head?_eq_some_iff.mp hc
        simp [hblank]
      · rw [← List.cons_append, hrest]
        exact (List.takeWhile_append_dropWhile).symm
    · cases h
  · rintro ⟨b, hne, hb, rfl⟩
    obtain ⟨c, r, rfl⟩ := List.exists_cons_of_ne_nil hne
    have hstart : trimStart ((c :: r) ++ w :: (s ++ rest)) = w :: (s ++ rest) := by
      rw [trimStart_append hb, trimStart, List.dropWhile_cons_of_neg (by simp [hw])]
    rw [wordAfterBlanks?, if_pos (by simp [hb c List.mem_cons_self]), hstart,
      List.isPrefixOf?_eq_some_iff_append_eq]
    rfl

/-- An expression stands between blanks, or it is a single blank. -/
theorem clause?_eq_some (h : clause? t = some s) :
    (t.head?.any isBlank ∧ '\n' ∉ s) ∧
      (s ≠ [] ∧ trim t = s ∨
        ∃ c, s = [c] ∧ isBlank c = true ∧ (∀ a ∈ t, isBlank a = true) ∧ c ∈ t.tail) := by
  unfold clause? at h
  split at h
  · next hhead =>
    dsimp only at h
    split at h
    · next hempty =>
      have hblank := trim_eq_nil_iff.mp (List.isEmpty_iff.mp hempty)
      obtain ⟨c, hc, rfl⟩ := Option.map_eq_some_iff.mp h
      have hmem : c ∈ t.tail := List.mem_reverse.mp (List.mem_of_find?_eq_some hc)
      have hfeed : c ≠ '\n' := by simpa using List.find?_some hc
      have hc := hblank c (List.mem_of_mem_tail hmem)
      exact ⟨⟨hhead, by simpa using hfeed.symm⟩, Or.inr ⟨c, rfl, hc, hblank, hmem⟩⟩
    · next hne =>
      split at h
      · cases h
      · next hfeed =>
        obtain rfl := Option.some.inj h
        exact ⟨⟨hhead, by simpa using hfeed⟩, Or.inl ⟨by simpa using hne, rfl⟩⟩
  · cases h

/-- An expression that stands on a line is read behind a blank. -/
theorem clause?_space (h : IsInline s) : clause? (' ' :: s) = some s := by
  have htrim : trim (' ' :: s) = s := (trim_blank_append (b := [' ']) (by simp) s).trans h.2.1
  simp [clause?, htrim, h.1, h.2.2]

/-- **An expression that has been read is read again.** -/
theorem clause?_reread (h : clause? t = some s) : clause? (' ' :: s) = some s := by
  obtain ⟨⟨-, hfeed⟩, ⟨hne, rfl⟩ | ⟨c, rfl, hblank, -, -⟩⟩ := clause?_eq_some h
  · exact clause?_space ⟨hne, trim_trim t, hfeed⟩
  · have htrim : trim [' ', c] = [] := trim_eq_nil_iff.mpr (by simp [hblank])
    have hc : c ≠ '\n' := by simpa [eq_comm] using hfeed
    simp [clause?, htrim, hc]

/-! ### Guards -/

/-- The condition that guards a step by a flag. -/
def guardCondition (flag : Text) : Text :=
  "not defined(".toList ++ (quote flag ++ (") or not ".toList ++ flag))

theorem guardCondition_eq (flag : Text) :
    guardCondition flag = "not defined(".toList ++ (quote flag ++ (") or not ".toList ++ flag)) :=
  rfl

theorem isInline_guardCondition (h : IsInline flag) : IsInline (guardCondition flag) := by
  have hlast : flag.getLast?.any (!isBlank ·) = true := by
    rw [List.getLast?_eq_some_getLast h.1]
    simp [(trim_eq_self_iff.mp h.2.1).2 _ (List.getLast?_eq_some_getLast h.1)]
  have hquote := notMem_lineFeed_quote h.2.2
  have hline := isInline_between (p := "not defined(".toList)
    (t := quote flag ++ ") or not ".toList) (by decide) hlast (by simpa using ⟨hquote, h.2.2⟩)
  rwa [List.append_assoc, List.append_assoc] at hline

theorem guardTail?_space (h : IsInline flag) : guardTail? (" or not ".toList ++ flag) = some flag :=
  clause?_space h

theorem afterParenthesis?_append (h : ')' ∉ s) (t : Text) :
    afterParenthesis? (s ++ ')' :: t) = some t := by
  rw [afterParenthesis?, dropWhile_ne_append h]

/-- What is read behind an opening mark. -/
theorem afterQuotedArgument?_cons (t : Text) :
    afterQuotedArgument? '"' ('"' :: t) =
      match trimStart (t.dropWhile (· ≠ '"')).tail with
      | ')' :: rest => if t.contains '"' then some rest else none
      | _ => none :=
  rfl

/-- Without a quotation mark in the flag, the first mark after the opening one closes it. -/
theorem afterQuotedArgument?_quote (hm : '"' ∉ flag) (t : Text) :
    afterQuotedArgument? '"' (quote flag ++ ')' :: t) = some t := by
  have hbody : '"' ∉ escaped flag := fun h => (mem_escaped h).elim (by decide) hm
  have hquote : quote flag ++ ')' :: t = '"' :: (escaped flag ++ '"' :: ')' :: t) := by
    rw [quote_eq]
    simp
  rw [hquote, afterQuotedArgument?_cons, dropWhile_ne_append hbody]
  simp [trimStart, show isBlank ')' = false by decide]

theorem mem_escaped_of_mem (h : c ∈ flag) : c ∈ escaped flag := by
  refine List.mem_flatMap.mpr ⟨c, h, ?_⟩
  split <;> simp

/-- With a quotation mark in the flag, that mark closes the argument, if a parenthesis of the flag
follows it.  The rest begins within the flag. -/
theorem exists_of_afterQuotedArgument?_quote (hm : '"' ∈ flag)
    (h : afterQuotedArgument? '"' (quote flag ++ t) = some rest) :
    ')' ∈ flag ∧ ∃ q, rest = q ++ '"' :: t := by
  obtain ⟨p, q, heq, hfirst⟩ := List.eq_append_cons_of_mem (mem_escaped_of_mem hm)
  have hquote : quote flag ++ t = '"' :: (p ++ '"' :: (q ++ '"' :: t)) := by
    rw [quote_eq, heq]
    simp
  rw [hquote, afterQuotedArgument?_cons, dropWhile_ne_append hfirst, List.tail_cons] at h
  split at h
  · next r hr =>
    obtain ⟨u, hu, rfl⟩ := exists_of_trimStart_append_cons (by decide) (by decide) hr
    rw [if_pos (by simp)] at h
    refine ⟨?_, u, (Option.some.inj h).symm⟩
    have hmem : ')' ∈ q := (trimStart_suffix q).subset (hu ▸ List.mem_cons_self)
    have hparen : ')' ∈ escaped flag := by
      rw [heq]
      exact List.mem_append_right p (List.mem_cons_of_mem _ hmem)
    exact (mem_escaped hparen).resolve_left (by decide)
  · cases h

/-- With a quotation mark in the flag, no mark closes it in front of a parenthesis. -/
theorem afterQuotedArgument?_eq_none (hm : '"' ∈ flag) (hp : ')' ∉ flag) (t : Text) :
    afterQuotedArgument? '"' (quote flag ++ t) = none := by
  rw [Option.eq_none_iff_forall_ne_some]
  intro rest h
  exact hp (exists_of_afterQuotedArgument?_quote hm h).1

/-- A guard is read in one of three ways. -/
theorem guardedFlag?_eq (flag : Text) :
    guardedFlag? (guardCondition flag) =
      [afterQuotedArgument? '"' (quote flag ++ ')' :: (" or not ".toList ++ flag)),
        afterQuotedArgument? '\'' (quote flag ++ ')' :: (" or not ".toList ++ flag)),
        afterParenthesis? (quote flag ++ ')' :: (" or not ".toList ++ flag))].findSome?
        (·.bind guardTail?) :=
  rfl

/-- **A guard reads back its flag** unless the flag has both a quotation mark and a closing
parenthesis. -/
theorem guardedFlag?_guardCondition (h : IsInline flag) (hp : ¬ ('"' ∈ flag ∧ ')' ∈ flag)) :
    guardedFlag? (guardCondition flag) = some flag := by
  have htail := guardTail?_space h
  rw [guardedFlag?_eq]
  generalize " or not ".toList ++ flag = tail at htail ⊢
  by_cases hm : '"' ∈ flag
  · have hp' : ')' ∉ flag := fun h' => hp ⟨hm, h'⟩
    have hquote : ')' ∉ quote flag := notMem_quote hp' (by decide) (by decide)
    have hsingle : afterQuotedArgument? '\'' (quote flag ++ ')' :: tail) = none := rfl
    rw [afterQuotedArgument?_eq_none hm hp', hsingle, afterParenthesis?_append hquote]
    simp [htail]
  · rw [afterQuotedArgument?_quote hm]
    simp [htail]

/-! ### What a guard reads -/

theorem wordAfterBlanks?_suffix {word : Text} (h : wordAfterBlanks? word t = some rest) :
    rest <:+ t := by
  unfold wordAfterBlanks? at h
  split at h
  · have hrest : rest <:+ trimStart t := ⟨word, List.isPrefixOf?_eq_some_iff_append_eq.mp h⟩
    exact hrest.trans (trimStart_suffix t)
  · cases h

theorem afterQuotedArgument?_suffix {mark : Char} (h : afterQuotedArgument? mark t = some rest) :
    rest <:+ t := by
  unfold afterQuotedArgument? at h
  split at h
  · next c r hr =>
    split at h
    · split at h
      · next rest' hrest =>
        split at h
        · obtain rfl := Option.some.inj h
          have hdrop : rest' <:+ trimStart (r.dropWhile (· ≠ mark)).tail :=
            hrest ▸ List.suffix_cons _ _
          have htail : (r.dropWhile (· ≠ mark)).tail <:+ r :=
            (List.tail_suffix _).trans (List.dropWhile_suffix _)
          have hr' : r <:+ t := (List.suffix_cons c r).trans (hr ▸ trimStart_suffix t)
          exact ((hdrop.trans (trimStart_suffix _)).trans htail).trans hr'
        · cases h
      · cases h
    · cases h
  · cases h

theorem afterParenthesis?_suffix (h : afterParenthesis? t = some rest) : rest <:+ t := by
  unfold afterParenthesis? at h
  split at h
  · next c r hr =>
    obtain rfl := Option.some.inj h
    exact (List.suffix_cons c r).trans (hr ▸ List.dropWhile_suffix _)
  · cases h

/-- The flag of a guard is the expression at its end. -/
theorem exists_clause?_of_guardedFlag? (h : guardedFlag? cond = some flag) :
    ∃ z, z <:+ cond ∧ clause? z = some flag := by
  simp only [guardedFlag?, Option.bind_eq_bind, Option.bind_eq_some_iff] at h
  obtain ⟨t, ht, u, hu, h⟩ := h
  have hcond : u <:+ cond :=
    (wordAfterBlanks?_suffix hu).trans ⟨_, List.isPrefixOf?_eq_some_iff_append_eq.mp ht⟩
  obtain ⟨r, hr, hflag⟩ := List.exists_of_findSome?_eq_some h
  obtain ⟨v, rfl, hv⟩ := Option.bind_eq_some_iff.mp hflag
  have hsuffix : v <:+ u := by
    rcases List.mem_cons.mp hr with hr | hr
    · exact afterQuotedArgument?_suffix hr.symm
    rcases List.mem_cons.mp hr with hr | hr
    · exact afterQuotedArgument?_suffix hr.symm
    · exact afterParenthesis?_suffix (List.mem_singleton.mp hr).symm
  simp only [guardTail?, Option.bind_eq_bind, Option.bind_eq_some_iff] at hv
  obtain ⟨x, hx, y, hy, hclause⟩ := hv
  exact ⟨y, (((wordAfterBlanks?_suffix hy).trans (wordAfterBlanks?_suffix hx)).trans hsuffix).trans
    hcond, hclause⟩

/-- **The flag that a guard reads stands on a line** where the guard ends visibly. -/
theorem isInline_of_guardedFlag? (h : guardedFlag? cond = some flag)
    (hlast : ∀ c ∈ cond.getLast?, isBlank c = false) : IsInline flag := by
  obtain ⟨z, ⟨u, rfl⟩, hz⟩ := exists_clause?_of_guardedFlag? h
  obtain ⟨⟨hhead, hfeed⟩, ⟨hne, rfl⟩ | ⟨c, rfl, -, hblank, hc⟩⟩ := clause?_eq_some hz
  · exact ⟨hne, trim_trim z, hfeed⟩
  · have hz' : z ≠ [] := by
      rintro rfl
      cases hc
    have hlast' := hlast (z.getLast hz') (by
      rw [List.getLast?_append_of_ne_nil _ hz', List.getLast?_eq_some_getLast hz']
      rfl)
    rw [hblank _ (List.getLast_mem hz')] at hlast'
    cases hlast'

end Pattern

end InterviewPlan
