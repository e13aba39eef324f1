import InterviewPlan.Proofs.Script.Indentation

/-!
# Nested blocks

A block may itself be indented, as a part of something else.  Its header is then not at the left
margin any more, so that it is found by its key alone, and the script goes on below it as long as
the lines are indented further than the header.  Both ways to find the script pick the same lines,
as long as the first header at any depth is one that stands alone at the left margin before the
block is moved.

## Main results

* `Extract.header?_eq`: the header of the script is the first one at any depth
* `Extract.payload?_indented`: the lines of the script move with the block
* `Script.extract_indented`: a block has the same plan when it is nested
-/

namespace InterviewPlan

open Text Script

namespace Extract

variable {isHead : Text → Bool} {block line : Text} {ls : List Text}

/-! ### Lines that are indented further -/

theorem dropWhile_isIndent_pad_append (k : Nat) (line : Text) :
    (pad k ++ line).dropWhile isIndent = line.dropWhile isIndent := by
  refine List.dropWhile_append_of_pos fun c hc => ?_
  rw [List.eq_of_mem_replicate hc]
  rfl

theorem afterKey?_pad_append (key line : Text) (k : Nat) :
    afterKey? key (pad k ++ line) = afterKey? key line := by
  rw [afterKey?, afterKey?, dropWhile_isIndent_pad_append]

/-- The identifier does not depend on the indentation. -/
theorem id?_indented (k : Nat) (block : Text) : id? (indented k block) = id? block := by
  have hvalue : idValue? ∘ (pad k ++ ·) = idValue? := by
    funext line
    rw [Function.comp_apply, idValue?, idValue?, afterKey?_pad_append]
  rw [id?, id?, rawLines_indented, List.findSome?_map, hvalue]

/-- Indentation that all lines of a script have in common is taken away with the rest. -/
theorem dedent_map_pad (h : ∃ l ∈ ls, isBlankText l = false) (k : Nat) :
    dedent (ls.map (pad k ++ ·)) = dedent ls := by
  have hdrop : (ls.map (pad k ++ ·)).map (·.drop k) = ls := by
    rw [List.map_map]
    refine List.map_id'' (fun l => ?_) ls
    exact List.drop_left' List.length_replicate
  obtain ⟨l, hl, hvisible⟩ := h
  refine Eq.trans (dedent_map_drop (w := k) ?_ ⟨pad k ++ l, List.mem_map_of_mem hl, ?_⟩).symm
    (congrArg dedent hdrop)
  · intro m hm _
    obtain ⟨x, -, rfl⟩ := List.mem_map.mp hm
    rw [Script.indentOf_pad_append]
    exact Nat.le_add_right k _
  · rw [isBlankText_pad_append, hvisible]

/-! ### The header -/

theorem isHeader_pad_append (k : Nat) (line : Text) : isHeader (pad k ++ line) = isHeader line := by
  rw [isHeader, isHeader, dropWhile_isIndent_pad_append]

theorem isHeader_of_isStrictHeader (h : isStrictHeader line = true) : isHeader line = true := by
  unfold isStrictHeader at h
  split at h
  · cases h
  · next r hr =>
    have hprefix : "code:".toList ++ r = line := List.isPrefixOf?_eq_some_iff_append_eq.mp hr
    rw [← hprefix]
    rfl

/-- A line that is indented is no header at the left margin. -/
theorem isStrictHeader_pad_append (k : Nat) (line : Text) :
    isStrictHeader (pad (k + 1) ++ line) = false :=
  rfl

/-- A header moves with the block if it stays a header. -/
theorem below?_indented {k : Nat} (h : ∀ l, isHead (pad k ++ l) = isHead l) (block : Text) :
    below? isHead (indented k block) =
      (below? isHead block).map fun x => (pad k ++ x.1, x.2.map (pad k ++ ·)) := by
  have hhead : (fun l => !isHead (dropLineFeed l)) ∘ (pad k ++ ·) =
      fun l => !isHead (dropLineFeed l) := by
    funext l
    rw [Function.comp_apply, dropLineFeed_pad_append, h]
  rw [below?, below?, fullLines_indented, List.dropWhile_map, hhead]
  cases (fullLines block).dropWhile fun l => !isHead (dropLineFeed l) with
  | nil => rfl
  | cons header rest =>
    have hending : dropEnding ∘ (pad k ++ ·) = (pad k ++ ·) ∘ dropEnding :=
      funext (dropEnding_pad_append k)
    simp only [List.map_cons, List.map_map, Option.map_some, dropLineFeed_pad_append, hending]

theorem below?_isStrictHeader_indented (k : Nat) (block : Text) :
    below? isStrictHeader (indented (k + 1) block) = none := by
  have hnone : (fullLines (indented (k + 1) block)).dropWhile
      (fun l => !isStrictHeader (dropLineFeed l)) = [] := by
    rw [List.dropWhile_eq_nil_iff, fullLines_indented]
    intro l hl
    obtain ⟨x, -, rfl⟩ := List.mem_map.mp hl
    rw [dropLineFeed_pad_append, isStrictHeader_pad_append]
    rfl
  rw [below?, hnone]

/-- A test that is stricter than another one finds the same line first if it accepts that line. -/
theorem dropWhile_eq_of_find? {p q : Text → Bool} (hpq : ∀ l, p l = true → q l = true)
    (h : ∀ l ∈ ls.find? q, p l = true) : ls.dropWhile (!p ·) = ls.dropWhile (!q ·) := by
  induction ls with
  | nil => rfl
  | cons l ls ih =>
    rw [List.find?_cons] at h
    rw [List.dropWhile_cons, List.dropWhile_cons]
    cases hq : q l with
    | true =>
      rw [hq] at h
      rw [h l rfl]
      rfl
    | false =>
      rw [hq] at h
      have hp : p l = false := Bool.eq_false_iff.mpr fun hp => by
        rw [hpq l hp] at hq
        cases hq
      rw [hp]
      exact ih h

/-- If the first header at any depth stands alone at the left margin, it is the first one there. -/
theorem below?_eq_of_find? (h : ∀ l ∈ (rawLines block).find? isHeader, isStrictHeader l = true) :
    below? isStrictHeader block = below? isHeader block := by
  have hdrop : (fullLines block).dropWhile (fun l => !isStrictHeader (dropLineFeed l)) =
      (fullLines block).dropWhile fun l => !isHeader (dropLineFeed l) := by
    refine dropWhile_eq_of_find? (p := isStrictHeader ∘ dropLineFeed)
      (q := isHeader ∘ dropLineFeed) (fun _ => isHeader_of_isStrictHeader) fun l hl => ?_
    refine h (dropLineFeed l) ?_
    rw [rawLines, List.find?_map, Option.mem_def.mp hl]
    rfl
  rw [below?, below?, hdrop]

/-- **The header of the script** is the first one at any depth, if no other one stands alone at the
left margin above its script. -/
theorem header?_eq (h : ∀ x ∈ below? isStrictHeader block, below? isHeader block = some x) :
    header? block = below? isHeader block := by
  unfold header?
  split
  · next hstrict =>
    obtain ⟨payload, hpayload⟩ := Option.isSome_iff_exists.mp hstrict
    obtain ⟨x, hx, -⟩ := Option.bind_eq_some_iff.mp hpayload
    rw [hx, h x hx]
  · rfl

/-- A script has a line that is not blank. -/
theorem exists_of_payload? (h : payload? block = some ls) : ∃ l ∈ ls, isBlankText l = false := by
  rw [payload?_eq] at h
  obtain ⟨x, -, hx⟩ := Option.bind_eq_some_iff.mp h
  unfold withContent? at hx
  split at hx
  · cases hx
  · next hcontent =>
    obtain rfl := Option.some.inj hx
    simpa using hcontent

variable (h : ∀ l ∈ (rawLines block).find? isHeader, isStrictHeader l = true)
include h

theorem header?_indented (k : Nat) :
    header? (indented k block) =
      (header? block).map fun x => (pad k ++ x.1, x.2.map (pad k ++ ·)) := by
  have hsame := below?_eq_of_find? h
  have hblock : header? block = below? isHeader block :=
    header?_eq fun x hx => hsame.symm.trans hx
  cases k with
  | zero =>
    have hid : (fun x : Text × List Text => (pad 0 ++ x.1, x.2.map (pad 0 ++ ·))) = id :=
      funext fun x => Prod.ext rfl (List.map_id' x.2)
    rw [indented_zero, hid, Option.map_id]
    rfl
  | succ k =>
    have hnested : header? (indented (k + 1) block) = below? isHeader (indented (k + 1) block) := by
      refine header?_eq fun x hx => ?_
      rw [below?_isStrictHeader_indented] at hx
      cases hx
    rw [hnested, hblock, below?_indented (isHeader_pad_append (k + 1))]

/-! ### The script -/

/-- **The lines of the script move with the block.** -/
theorem payload?_indented (k : Nat) :
    payload? (indented k block) = (payload? block).map (·.map (pad k ++ ·)) := by
  rw [payload?_eq, payload?_eq, header?_indented h k, Option.bind_map, Option.map_bind]
  refine Option.bind_congr fun x _ => ?_
  have hbelow : (fun l => isBlankText l || decide (indentOf (pad k ++ x.1) < indentOf l)) ∘
      (pad k ++ ·) = fun l => isBlankText l || decide (indentOf x.1 < indentOf l) := by
    funext l
    simp only [Function.comp_apply, isBlankText_pad_append, indentOf_pad_append,
      Nat.add_lt_add_iff_left]
  have hblank : isBlankText ∘ (pad k ++ ·) = isBlankText := funext (isBlankText_pad_append k)
  simp only [Function.comp_apply, List.takeWhile_map, hbelow, withContent?, List.all_map, hblank]
  split <;> rfl

end Extract

namespace Script

variable {block : Text}

/-- **A block has the same plan when it is nested**: the same blanks in front of all its lines
change neither whether there is a plan nor its identifier nor its steps, if the first header of the
block is one that stands alone at the left margin. -/
theorem extract_indented
    (h : ∀ l ∈ (rawLines block).find? Extract.isHeader, Extract.isStrictHeader l = true) (k : Nat) :
    extract (indented k block) = extract block := by
  rw [extract, extract, Extract.payload?_indented h, Extract.id?_indented, Option.bind_eq_bind,
    Option.bind_map]
  refine Option.bind_congr fun payload hpayload => ?_
  rw [Function.comp_apply, Extract.dedent_map_pad (Extract.exists_of_payload? hpayload)]

/-- A block with a short blank line in its script, a tab that indents a line, and a second script
below the first one. -/
def nestedSample : Text :=
  unlines ["id: interview_order".toList, "code: |".toList, "  if ready:".toList,
    "  \tdate".toList, [], "    name".toList, "---".toList, "  code: |".toList, "    x".toList]

/-- The plan of the block is that of its first script, at each depth. -/
theorem extract_indented_nestedSample :
    (∀ l ∈ (rawLines nestedSample).find? Extract.isHeader, Extract.isStrictHeader l = true) ∧
      extract (indented 3 nestedSample) = extract nestedSample := by
  have hhead : ∀ l ∈ (rawLines nestedSample).find? Extract.isHeader,
      Extract.isStrictHeader l = true := by
    decide +kernel
  exact ⟨hhead, extract_indented hhead 3⟩

end Script

end InterviewPlan
