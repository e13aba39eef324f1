import InterviewPlan.Proofs.Plan.Flags
import InterviewPlan.Proofs.Text.Lines

/-!
# Names with the same flag

A flag that is derived from a name keeps of it the runs of word characters, in lower case and in
their order, and nothing else.  What stands between two of them becomes one underscore, and what
stands before the first or behind the last is lost.  Since no word has an underscore, the words can
be read off the flag again, so that two names share a flag exactly when they have the same words.

## Main definitions

* `Flag.runs`: the maximal runs of word characters of a name
* `Flag.flagWords`: the words that the flag of a name is made of
* `Flag.IsSnakeCase`: an identifier of words that are joined by single underscores

## Main results

* `Flag.runInduction`: induction over a name along its runs
* `Flag.words_eq_map_runs`: the words of a name are its runs in lower case
* `Flag.slug_eq`: the slug of a name is its words, joined
* `Flag.derived_eq_joinWith`: a flag is its lead and these words, joined
* `Flag.derived_eq_iff`: which names share a flag, and what a flag looks like
-/

namespace InterviewPlan

open Text

variable {c d : Char} {name r t w : Text} {ws : List Text}

namespace Text

/-- The separator stands in front of all texts but the first. -/
theorem joinWith_cons (separator : Char) (w : Text) (ws : List Text) :
    joinWith [separator] (w :: ws) = w ++ ws.flatMap (separator :: ·) := by
  induction ws generalizing w with
  | nil => simp
  | cons u ws ih =>
    rw [joinWith_cons_cons, ih, List.flatMap_cons]
    simp

end Text

namespace Flag

/-! ### The runs of a name -/

/-- **Induction over a name along its runs**: a character belongs to no word, it is the last one of
its run, or the next one belongs to the same run. -/
@[elab_as_elim]
theorem runInduction {motive : Text → Prop} (nil : motive [])
    (gap : ∀ c r, isWordChar c = false → motive r → motive (c :: r))
    (last : ∀ c r, isWordChar c = true → r.head?.any isWordChar = false → motive r →
      motive (c :: r))
    (inside : ∀ c d r, isWordChar c = true → isWordChar d = true → motive (d :: r) →
      motive (c :: d :: r))
    (name : Text) : motive name := by
  induction name with
  | nil => exact nil
  | cons c r ih =>
    cases hc : isWordChar c with
    | false => exact gap c r hc ih
    | true =>
      cases r with
      | nil => exact last c [] hc rfl ih
      | cons d r =>
        cases hd : isWordChar d with
        | false => exact last c (d :: r) hc hd ih
        | true => exact inside c d r hc hd ih

/-- The maximal runs of word characters of a name: the parts between all other characters, without
the empty ones. -/
def runs (name : Text) : List Text := (name.splitOnP (!isWordChar ·)).filter (!·.isEmpty)

/-- A character that belongs to no word separates runs. -/
theorem runs_cons_of_gap (hc : isWordChar c = false) (r : Text) : runs (c :: r) = runs r := by
  rw [runs, List.splitOnP_cons_eq_if_modifyHead, if_pos (by simp [hc])]
  rfl

/-- A word character at the end of its run. -/
theorem runs_cons_of_last (hc : isWordChar c = true) (hr : r.head?.any isWordChar = false) :
    runs (c :: r) = [c] :: runs r := by
  rw [runs, List.splitOnP_cons_eq_if_modifyHead, if_neg (by simp [hc])]
  cases r with
  | nil => rfl
  | cons d q =>
    have hd : isWordChar d = false := hr
    rw [List.splitOnP_cons_eq_if_modifyHead, if_pos (by simp [hd]), runs_cons_of_gap hd]
    rfl

/-- A word character in front of another one belongs to the same run. -/
theorem exists_runs_cons (hc : isWordChar c = true) (hd : isWordChar d = true) (r : Text) :
    ∃ w ws, runs (d :: r) = w :: ws ∧ runs (c :: d :: r) = (c :: w) :: ws := by
  obtain ⟨h, t, hsplit⟩ := List.exists_cons_of_ne_nil (List.splitOnP_ne_nil (!isWordChar ·) r)
  have hfirst : (d :: r).splitOnP (!isWordChar ·) = (d :: h) :: t := by
    rw [List.splitOnP_cons_eq_if_modifyHead, if_neg (by simp [hd]), hsplit]
    rfl
  have hsecond : (c :: d :: r).splitOnP (!isWordChar ·) = (c :: d :: h) :: t := by
    rw [List.splitOnP_cons_eq_if_modifyHead, if_neg (by simp [hc]), hfirst]
    rfl
  exact ⟨d :: h, t.filter (!·.isEmpty), by rw [runs, hfirst]; rfl, by rw [runs, hsecond]; rfl⟩

/-! ### The words of a name -/

theorem words_cons_of_gap (hc : isWordChar c = false) (r : Text) : words (c :: r) = words r := by
  rw [words, if_neg (by simp [hc])]

theorem words_cons_of_last (hc : isWordChar c = true) (hr : r.head?.any isWordChar = false) :
    words (c :: r) = [c.toLower] :: words r := by
  rw [words, if_pos hc, hr]
  split
  · next h => cases h
  · rfl

theorem words_cons_of_inside (hc : isWordChar c = true) (hd : isWordChar d = true)
    (hw : words (d :: r) = w :: ws) : words (c :: d :: r) = (c.toLower :: w) :: ws := by
  rw [words, if_pos hc, hw, List.head?_cons, Option.any_some, hd]

/-- **The words of a name** are its runs in lower case. -/
theorem words_eq_map_runs (name : Text) : words name = (runs name).map lower := by
  induction name using runInduction with
  | nil => rfl
  | gap c r hc ih => rw [words_cons_of_gap hc, runs_cons_of_gap hc, ih]
  | last c r hc hr ih =>
    rw [words_cons_of_last hc hr, runs_cons_of_last hc hr, ih]
    rfl
  | inside c d r hc hd ih =>
    obtain ⟨w, ws, hnext, hboth⟩ := exists_runs_cons hc hd r
    rw [hnext, List.map_cons] at ih
    rw [words_cons_of_inside hc hd ih, hboth]
    rfl

theorem exists_words_cons (hd : isWordChar d = true) (r : Text) :
    ∃ w ws, words (d :: r) = w :: ws := by
  obtain ⟨w, ws, hruns, -⟩ := exists_runs_cons hd hd r
  exact ⟨lower w, ws.map lower, by rw [words_eq_map_runs, hruns]; rfl⟩

/-- A word is a text of small letters and digits that is not empty. -/
def IsWord (w : Text) : Prop := w ≠ [] ∧ ∀ c ∈ w, c.isLower = true ∨ c.isDigit = true

theorem isWord_of_all (hne : w ≠ []) (h : w.all (fun c => c.isLower || c.isDigit) = true) :
    IsWord w :=
  ⟨hne, by simpa using h⟩

theorem isWord_of_mem_words (h : w ∈ words name) : IsWord w := by
  induction name using runInduction generalizing w with
  | nil => cases h
  | gap c r hc ih => exact ih (words_cons_of_gap hc r ▸ h)
  | last c r hc hr ih =>
    rw [words_cons_of_last hc hr] at h
    rcases List.mem_cons.mp h with rfl | h
    · exact ⟨List.cons_ne_nil _ _, List.forall_mem_singleton.mpr (isLower_or_isDigit_toLower hc)⟩
    · exact ih h
  | inside c d r hc hd ih =>
    obtain ⟨u, us, hu⟩ := exists_words_cons hd r
    rw [words_cons_of_inside hc hd hu] at h
    rw [hu] at ih
    rcases List.mem_cons.mp h with rfl | h
    · exact ⟨List.cons_ne_nil _ _,
        List.forall_mem_cons.mpr ⟨isLower_or_isDigit_toLower hc, (ih List.mem_cons_self).2⟩⟩
    · exact ih (List.mem_cons_of_mem u h)

theorem IsWord.notMem_underscore (h : IsWord w) : '_' ∉ w := by
  intro hmem
  rcases h.2 '_' hmem with h | h <;> cases h

/-! ### The slug of a name -/

theorem slug_cons_of_gap (hc : isWordChar c = false) (started separated : Bool) (r : Text) :
    slug started separated (c :: r) = slug started true r := by
  rw [slug, if_neg (by simp [hc])]

theorem slug_cons_of_word (hc : isWordChar c = true) (started separated : Bool) (r : Text) :
    slug started separated (c :: r) =
      (if started && separated then ['_'] else []) ++ c.toLower :: slug true false r := by
  rw [slug, if_pos hc]

/-- **The slug of a name** is its words, joined, wherever the loop stands: before the first word, in
a gap behind a word, where an underscore comes before each word that follows, and inside a word,
which goes on with the rest. -/
theorem slug_eq (name : Text) :
    (∀ separated, slug false separated name = joinWith ['_'] (words name)) ∧
      slug true true name = (words name).flatMap ('_' :: ·) ∧
      ∀ c, isWordChar c = true →
        c.toLower :: slug true false name = joinWith ['_'] (words (c :: name)) := by
  induction name with
  | nil => exact ⟨fun _ => rfl, rfl, fun c hc => by rw [words_cons_of_last hc rfl]; rfl⟩
  | cons d r ih =>
    obtain ⟨hstart, hgap, hinside⟩ := ih
    cases hd : isWordChar d with
    | false =>
      rw [words_cons_of_gap hd]
      refine ⟨fun separated => ?_, ?_, fun c hc => ?_⟩
      · rw [slug_cons_of_gap hd, hstart]
      · rw [slug_cons_of_gap hd, hgap]
      · have hend : (d :: r).head?.any isWordChar = false := hd
        rw [slug_cons_of_gap hd, hgap, words_cons_of_last hc hend, words_cons_of_gap hd,
          joinWith_cons]
        rfl
    | true =>
      obtain ⟨w, ws, hw⟩ := exists_words_cons hd r
      have hrest : d.toLower :: slug true false r = w ++ ws.flatMap ('_' :: ·) := by
        rw [hinside d hd, hw, joinWith_cons]
      refine ⟨fun separated => ?_, ?_, fun c hc => ?_⟩
      · rw [slug_cons_of_word hd, hrest, hw, joinWith_cons]
        rfl
      · rw [slug_cons_of_word hd, hrest, hw]
        rfl
      · rw [slug_cons_of_word hd, hrest, words_cons_of_inside hc hd hw, joinWith_cons]
        rfl

/-- The words that the flag of a name is made of: those of the name, or `step` if it has none. -/
def flagWords (name : Text) : List Text := if words name = [] then [emptyWord] else words name

theorem flagWords_ne_nil (name : Text) : flagWords name ≠ [] := by
  unfold flagWords
  split
  · exact List.cons_ne_nil _ _
  · assumption

theorem isWord_of_mem_flagWords (h : w ∈ flagWords name) : IsWord w := by
  unfold flagWords at h
  split at h
  · rw [List.mem_singleton.mp h]
    exact isWord_of_all (List.cons_ne_nil _ _) rfl
  · exact isWord_of_mem_words h

/-- **A derived flag** is its lead and its words, joined by underscores. -/
theorem derived_eq_joinWith (name : Text) :
    derived name = lead ++ joinWith ['_'] (flagWords name) := by
  have hslug : slug false false name = joinWith ['_'] (words name) := (slug_eq name).1 false
  rw [derived, hslug, flagWords]
  cases hwords : words name with
  | nil => rfl
  | cons w ws =>
    have hne : (joinWith ['_'] (w :: ws)).isEmpty = false := by
      have hw : w ≠ [] := (isWord_of_mem_words (hwords ▸ List.mem_cons_self)).1
      simpa [joinWith_cons] using fun h => absurd h hw
    simp [hne]

/-! ### Identifiers of words -/

/-- An identifier of words that are joined by single underscores: it begins with a small letter, is
made of small letters, digits and underscores, and has no two underscores in a row and none at its
end. -/
structure IsSnakeCase (t : Text) : Prop where
  head : t.head?.any Char.isLower = true
  chars : ∀ c ∈ t, c.isLower = true ∨ c.isDigit = true ∨ c = '_'
  single : ¬ ['_', '_'] <:+: t
  last : t.getLast? ≠ some '_'

/-- What is cut at an underscore with another one, or nothing, behind it has an empty part. -/
theorem nil_mem_splitOn (u : Text) {v : Text} (hv : v.head?.all (· == '_') = true) :
    [] ∈ (u ++ '_' :: v).splitOn '_' := by
  rw [List.splitOn_append_cons_self]
  refine List.mem_append_right _ ?_
  cases v with
  | nil => exact List.mem_singleton_self _
  | cons a v =>
    have ha : a = '_' := by simpa using hv
    rw [ha, ← List.nil_append ('_' :: v), List.splitOn_append_cons_self]
    exact List.mem_cons_self

/-- **Words that are joined make up an identifier**, if a letter stands at its beginning. -/
theorem isSnakeCase_joinWith (hne : ws ≠ []) (hws : ∀ w ∈ ws, IsWord w)
    (hhead : (joinWith ['_'] ws).head?.any Char.isLower = true) :
    IsSnakeCase (joinWith ['_'] ws) := by
  have hsplit : (joinWith ['_'] ws).splitOn '_' = ws :=
    List.splitOn_intercalate '_' (fun w hw => (hws w hw).notMem_underscore) hne
  have hparts : [] ∉ (joinWith ['_'] ws).splitOn '_' := by
    rw [hsplit]
    exact fun h => (hws [] h).1 rfl
  refine ⟨hhead, fun c hc => ?_, ?_, fun hlast => ?_⟩
  · obtain ⟨w, ws', rfl⟩ := List.exists_cons_of_ne_nil hne
    rw [joinWith_cons, List.mem_append, List.mem_flatMap] at hc
    obtain ⟨hfirst, hrest⟩ := List.forall_mem_cons.mp hws
    rcases hc with hc | ⟨u, hu, hc⟩
    · exact (hfirst.2 c hc).imp_right Or.inl
    · rcases List.mem_cons.mp hc with rfl | hc
      · exact Or.inr (Or.inr rfl)
      · exact ((hrest u hu).2 c hc).imp_right Or.inl
  · rintro ⟨u, v, huv⟩
    refine hparts (huv ▸ ?_)
    simpa using nil_mem_splitOn u (v := '_' :: v) rfl
  · obtain ⟨u, hu⟩ := List.getLast?_eq_some_iff.mp hlast
    exact hparts (hu ▸ nil_mem_splitOn u (v := []) rfl)

/-- A derived flag is an identifier, whose first two words are those of its lead. -/
theorem isSnakeCase_derived (name : Text) : IsSnakeCase (derived name) := by
  have hjoin : derived name =
      joinWith ['_'] ("run".toList :: "once".toList :: flagWords name) := by
    obtain ⟨w, ws, hw⟩ := List.exists_cons_of_ne_nil (flagWords_ne_nil name)
    rw [derived_eq_joinWith, hw, joinWith_cons_cons, joinWith_cons_cons]
    rfl
  have hrun : IsWord "run".toList := isWord_of_all (List.cons_ne_nil _ _) rfl
  have honce : IsWord "once".toList := isWord_of_all (List.cons_ne_nil _ _) rfl
  have hwords : ∀ w ∈ "run".toList :: "once".toList :: flagWords name, IsWord w :=
    List.forall_mem_cons.mpr ⟨hrun, List.forall_mem_cons.mpr
      ⟨honce, fun _ hw => isWord_of_mem_flagWords hw⟩⟩
  rw [hjoin]
  exact isSnakeCase_joinWith (List.cons_ne_nil _ _) hwords (hjoin ▸ rfl)

/-- **Exactly which names share a flag**: those with the same words, which are the maximal runs of
ASCII letters and digits in lower case.  The flag of a name is its lead and these words, joined by
single underscores, and an identifier. -/
theorem derived_eq_iff :
    (∀ a b, derived a = derived b ↔ flagWords a = flagWords b) ∧
      ∀ name, words name = (runs name).map lower ∧
        derived name = "run_once_".toList ++ joinWith ['_'] (flagWords name) ∧
        IsSnakeCase (derived name) := by
  refine ⟨fun a b => ⟨fun h => ?_, fun h => ?_⟩, fun name =>
    ⟨words_eq_map_runs name, derived_eq_joinWith name, isSnakeCase_derived name⟩⟩
  · have hsplit : ∀ name, (joinWith ['_'] (flagWords name)).splitOn '_' = flagWords name :=
      fun name => List.splitOn_intercalate '_'
        (fun w hw => (isWord_of_mem_flagWords hw).notMem_underscore) (flagWords_ne_nil name)
    rw [derived_eq_joinWith, derived_eq_joinWith] at h
    rw [← hsplit a, List.append_cancel_left h, hsplit b]
  · rw [derived_eq_joinWith, derived_eq_joinWith, h]

end Flag

end InterviewPlan
