import InterviewPlan.Proofs.Script.Extent
import InterviewPlan.Script.Extract

/-!
# The header of a script

The script of a block stands below a header: the first one at the left margin that has a script, or
else the first one at any depth.  Either way the script goes on as long as its lines are blank or
indented further than that header, since a header at the left margin is not indented.  The lines
share the indentation of the line that is indented the least.

## Main definitions

* `Extract.header?`: the header of the script of a block, and the lines below it

## Main results

* `Extract.below?_append`: the first header is the first line, or it is found below it
* `Extract.below?_unlines`: the first header is found below lines that are none
* `Extract.payload?_eq`: the lines of the script stand below the header
* `Extract.sharedIndent_eq_of`, `Extract.exists_sharedIndent`: the indentation that lines share
-/

namespace InterviewPlan

open Text

namespace Extract

variable {isHead : Text → Bool} {block header l : Text} {head rest : List Text}

/-! ### The first header of a kind -/

/-- The first header is the first line, or it is found below it. -/
theorem below?_append (hl : '\n' ∉ l) (r : Text) :
    below? isHead (l ++ '\n' :: r) = if isHead l then some (l, lines r) else below? isHead r := by
  rw [below?, fullLines_append hl, List.dropWhile_cons, dropLineFeed_concat]
  cases isHead l with
  | true => simp [dropLineFeed_concat, lines]
  | false => rfl

/-- Nothing stands below a header that is the last line. -/
theorem below?_of_notMem (hnil : isHead [] = false) (hl : '\n' ∉ l) :
    below? isHead l = if isHead l then some (l, []) else none := by
  by_cases hne : l = []
  · rw [hne, hnil]
    rfl
  · rw [below?, fullLines_eq_singleton hne hl, List.dropWhile_cons, dropLineFeed_eq_self hl]
    cases isHead l with
    | true => simp [dropLineFeed_eq_self hl]
    | false => rfl

/-- The first header of joined lines, when the lines above it are known. -/
theorem below?_unlines (header : Text) (hhead : ∀ l ∈ head, isHead l = false ∧ '\n' ∉ l)
    (hheader : isHead header = true) (hfeed : '\n' ∉ header) (hrest : rest ≠ []) :
    below? isHead (unlines (head ++ header :: rest)) = some (header, lines (unlines rest)) := by
  induction head with
  | nil => rw [List.nil_append, unlines_cons header hrest, below?_append hfeed, if_pos hheader]
  | cons l head ih =>
    obtain ⟨⟨hl, hlfeed⟩, hhead⟩ := List.forall_mem_cons.mp hhead
    rw [List.cons_append, unlines_cons l (by simp), below?_append hlfeed,
      if_neg (Bool.not_eq_true _ ▸ hl), ih hhead]

theorem isHead_of_below? (h : below? isHead block = some (header, rest)) :
    isHead header = true := by
  unfold below? at h
  split at h
  · next line more hdrop =>
    obtain ⟨rfl, -⟩ := Prod.mk.inj (Option.some.inj h)
    have hhead := List.head?_dropWhile_not (fun l => !isHead (dropLineFeed l)) (fullLines block)
    simpa [hdrop] using hhead
  · cases h

/-! ### The header of the script -/

/-- The header of the script of a block and the lines below it: the first header at the left margin,
if there is a script below it, and else the first header at any depth. -/
def header? (block : Text) : Option (Text × List Text) :=
  if (strictPayload? block).isSome then below? isStrictHeader block else below? isHeader block

/-- A header that stands alone at the left margin is not indented. -/
theorem indentOf_of_isStrictHeader (h : isStrictHeader header = true) : indentOf header = 0 := by
  unfold isStrictHeader at h
  split at h
  · cases h
  · next r hr =>
    have hprefix : "code:".toList ++ r = header := List.isPrefixOf?_eq_some_iff_append_eq.mp hr
    rw [← hprefix]
    rfl

theorem any_head?_isIndent (line : Text) :
    line.head?.any isIndent = decide (0 < indentOf line) := by
  cases line with
  | nil => rfl
  | cons c r =>
    rw [indentOf, indentWidth, List.head?_cons, Option.any_some, List.takeWhile_cons]
    cases isIndent c <;> simp

/-- **The lines of the script** stand below its header, as long as they are blank or indented
further. -/
theorem payload?_eq (block : Text) :
    payload? block =
      (header? block).bind fun x =>
        withContent? (x.2.takeWhile fun line =>
          isBlankText line || decide (indentOf x.1 < indentOf line)) := by
  have hlenient : lenientPayload? block = (below? isHeader block).bind fun x =>
      withContent? (x.2.takeWhile fun line =>
        isBlankText line || decide (indentOf x.1 < indentOf line)) := rfl
  cases hstrict : strictPayload? block with
  | none =>
    rw [payload?, header?, hstrict]
    exact hlenient
  | some payload =>
    rw [payload?, header?, hstrict, Option.isSome_some, if_pos rfl, Option.some_or, ← hstrict,
      strictPayload?, Option.bind_eq_bind]
    refine Option.bind_congr fun x hx => ?_
    have hmargin : indentOf x.1 = 0 := indentOf_of_isStrictHeader (isHead_of_below? hx)
    simp only [any_head?_isIndent, hmargin]

/-! ### The indentation of its lines -/

theorem indentOf_pad_append (k : Nat) (line : Text) :
    indentOf (Script.pad k ++ line) = k + indentOf line :=
  Script.indentWidth_pad_append (by decide) k line

theorem isBlankText_pad_append (k : Nat) (line : Text) :
    isBlankText (Script.pad k ++ line) = isBlankText line := by
  have hpad : (Script.pad k).all isBlank = true :=
    List.all_eq_true.mpr fun c hc => Script.isBlank_of_mem_pad hc
  rw [isBlankText, isBlankText, List.all_append, hpad, Bool.true_and]

/-- What shared indentation is: no line that is not blank is indented less, and one is not indented
further. -/
theorem sharedIndent_eq_of (hmem : l ∈ rest) (hvisible : isBlankText l = false)
    (hle : ∀ m ∈ rest, isBlankText m = false → indentOf l ≤ indentOf m) :
    sharedIndent rest = indentOf l :=
  Script.least_eq_of hmem (by simp [hvisible]) fun m hm hm' => hle m hm (by simpa using hm')

/-- A line that is indented the least. -/
theorem exists_sharedIndent (h : ∃ l ∈ rest, isBlankText l = false) :
    ∃ l ∈ rest, isBlankText l = false ∧ indentOf l = sharedIndent rest ∧
      ∀ m ∈ rest, isBlankText m = false → indentOf l ≤ indentOf m := by
  have hvisible : ∃ l ∈ rest, (!isBlankText l) = true := by simpa using h
  have hleast := Script.exists_least (p := (!isBlankText ·)) (f := indentOf) hvisible
  simpa [sharedIndent] using hleast

end Extract

end InterviewPlan
