import InterviewPlan.Proofs.Script.Layout

/-!
# Indenting a script

Indentation is only ever compared: that of a line with the target of its block, and the target of a
block with that of the block around it.  So the same blanks in front of all lines change nothing,
if the target moves with them, and a script moves its target by itself, since that is the least
indentation of a statement.

## Main definitions

* `Script.indented`: a text with more blanks in front of each of its lines

## Main results

* `Script.lines_indented`: its lines are those of the text, with the blanks in front
* `Script.readBlock_indented`: a block and a script read the same with more blanks in front
-/

namespace InterviewPlan

open Text

namespace Script

variable {k n : Nat} {ls : List Text}

/-- The text with `k` more blanks in front of each of its lines. -/
def indented (k : Nat) (t : Text) : Text := ((fullLines t).map (pad k ++ ·)).flatten

theorem fullLines_indented (k : Nat) (t : Text) :
    fullLines (indented k t) = (fullLines t).map (pad k ++ ·) := by
  have hfeed := notMem_lineFeed_pad k
  induction t using lineInduction with
  | last l hl =>
    by_cases hne : l = []
    · rw [hne]
      rfl
    · rw [indented, fullLines_eq_singleton hne hl, List.map_singleton, List.flatten_singleton]
      exact fullLines_eq_singleton (by simp [hne]) (by simp [hfeed, hl])
  | cons l r hl ih =>
    have hline : indented k (l ++ '\n' :: r) = (pad k ++ l) ++ '\n' :: indented k r := by
      rw [indented, indented, fullLines_append hl, List.map_cons, List.flatten_cons]
      simp
    rw [hline, fullLines_append (by simp [hfeed, hl]), fullLines_append hl, List.map_cons, ih,
      List.append_assoc]

theorem indented_zero (t : Text) : indented 0 t = t := by
  have hsame : (fullLines t).map (pad 0 ++ ·) = fullLines t := List.map_id' _
  rw [indented, hsame, flatten_fullLines]

theorem dropEnding_pad_append (k : Nat) (l : Text) :
    dropEnding (pad k ++ l) = pad k ++ dropEnding l :=
  dropEnding_append (notMem_lineFeed_pad k)
    (fun h => absurd (List.eq_of_mem_replicate h) (by decide)) l

theorem dropLineFeed_pad_append (k : Nat) (l : Text) :
    dropLineFeed (pad k ++ l) = pad k ++ dropLineFeed l :=
  dropLineFeed_append (notMem_lineFeed_pad k) l

/-- **The lines of an indented text** are the lines of the text, with blanks in front. -/
theorem lines_indented (k : Nat) (t : Text) :
    Text.lines (indented k t) = (Text.lines t).map (pad k ++ ·) := by
  rw [Text.lines, Text.lines, fullLines_indented, List.map_map, List.map_map]
  exact List.map_congr_left fun l _ => dropEnding_pad_append k l

theorem rawLines_indented (k : Nat) (t : Text) :
    rawLines (indented k t) = (rawLines t).map (pad k ++ ·) := by
  rw [rawLines, rawLines, fullLines_indented, List.map_map, List.map_map]
  exact List.map_congr_left fun l _ => dropLineFeed_pad_append k l

/-! ### Reading -/

theorem Realigned.map_pad (k : Nat) (ls : List Text) : Realigned k (ls.map (pad k ++ ·)) ls := by
  induction ls with
  | nil => exact .blank (by simp) (by simp)
  | cons l ls ih => exact .line (isShifted_pad_append k l) ih

/-- Indented lines read as the same steps in a block that is indented as well. -/
theorem steps_map_pad (k n : Nat) (ls : List Text) :
    steps (n + k) (ls.map (pad k ++ ·)) = steps n ls :=
  (Realigned.map_pad k ls).steps

theorem takeWhile_isInside_map_pad (k n : Nat) (ls : List Text) :
    (ls.map (pad k ++ ·)).takeWhile (isInside (n + k)) =
      (ls.takeWhile (isInside n)).map (pad k ++ ·) := by
  have hinside : isInside (n + k) ∘ (pad k ++ ·) = isInside n := by
    funext l
    exact (isShifted_pad_append k l).isInside
  rw [List.takeWhile_map, hinside]

theorem isSkippable_map_pad (h : ∀ l ∈ ls, isSkippable l = true) (k : Nat) :
    ∀ l ∈ ls.map (pad k ++ ·), isSkippable l = true := by
  intro l hl
  obtain ⟨x, hx, rfl⟩ := List.mem_map.mp hl
  rw [(isShifted_pad_append k x).isSkippable, h x hx]

/-- The shallowest statement stays the shallowest one. -/
theorem baseIndent_map_pad (h : ∃ l ∈ ls, isSkippable l = false) (k : Nat) :
    baseIndent (ls.map (pad k ++ ·)) = baseIndent ls + k := by
  obtain ⟨l, hl, hskip, hbase, hle⟩ := exists_baseIndent h
  have hmem : pad k ++ l ∈ ls.map (pad k ++ ·) := List.mem_map_of_mem hl
  rw [← hbase, baseIndent_eq_of hmem, indentOf_pad_append, Nat.add_comm]
  · rw [(isShifted_pad_append k l).isSkippable, hskip]
  · intro m hm hm'
    obtain ⟨x, hx, rfl⟩ := List.mem_map.mp hm
    rw [(isShifted_pad_append k x).isSkippable] at hm'
    rw [indentOf_pad_append, indentOf_pad_append]
    exact Nat.add_le_add_left (hle x hx hm') k

/-- **Indentation does not matter.**  A block is read as the same steps, and ends at the same line,
if all lines and the target are indented by the same number of blanks; and a script is read as the
same steps if all of its lines are. -/
theorem readBlock_indented :
    (∀ lines cursor target k, readBlock (lines.map (pad k ++ ·)) cursor (target + k) =
        readBlock lines cursor target) ∧
      ∀ script k, decompile (indented k script) = decompile script := by
  constructor
  · intro lines cursor target k
    rw [readBlock_eq, readBlock_eq, ← List.map_drop, steps_map_pad, takeWhile_isInside_map_pad,
      List.length_map]
  · intro script k
    rw [decompile_eq_steps, decompile_eq_steps, lines_indented]
    by_cases hstatement : ∃ l ∈ Text.lines script, isSkippable l = false
    · rw [baseIndent_map_pad hstatement, steps_map_pad]
    · have hskip : ∀ l ∈ Text.lines script, isSkippable l = true := by simpa using hstatement
      rw [steps_of_isSkippable hskip, steps_of_isSkippable (isSkippable_map_pad hskip k)]

end Script

end InterviewPlan
