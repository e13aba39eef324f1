import InterviewPlan.Proofs.Script.Layout

/-!
# A script inside of its block

The plan of a block is read from the lines below its header alone.  What stands above the header has
no influence on it unless it is a header itself, and what stands below the script has none either:
the script ends at the first line at the left margin.  Two readers agree on these lines.  A block
takes away the indentation that they share, a script that stands alone begins at its shallowest
statement, and the two are the same as soon as a statement is among the lines that are indented the
least and no tab indents a line.

## Main definitions

* `Script.IsPayload`: the lines of a script below a header at the left margin
* `Script.BeginsAtMargin`: lines that end such a script

## Main results

* `Script.IsPayload.isGrounded`: both readers take away the same indentation
* `Extract.payload?_unlines`: the lines of the script are those between the header and the margin
* `Script.extract_unlines`: the plan of a block has the steps of its script
-/

namespace InterviewPlan

open Text

namespace Text

/-- If lines are missing at the end, what is taken from the others lacks some of these at most. -/
theorem exists_takeWhile_append (p : Text → Bool) (ls bs : List Text) :
    ∃ cs, cs ⊆ bs ∧ ls.takeWhile p ++ cs = (ls ++ bs).takeWhile p := by
  rw [List.takeWhile_append]
  split
  · next hall =>
    refine ⟨bs.takeWhile p, List.takeWhile_subset p, ?_⟩
    rw [(List.takeWhile_prefix p).eq_of_length hall]
  · exact ⟨[], List.nil_subset bs, List.append_nil _⟩

/-- Without a tab it does not matter whether tabs indent a line. -/
theorem takeWhile_isIndent {l : Text} (h : '\t' ∉ l.takeWhile isIndent) :
    l.takeWhile isIndent = l.takeWhile (· == ' ') := by
  induction l with
  | nil => rfl
  | cons c l ih =>
    rw [List.takeWhile_cons] at h ⊢
    rw [List.takeWhile_cons]
    cases hc : isIndent c with
    | false =>
      have hspace : (c == ' ') = false := (Bool.or_eq_false_iff.mp hc).1
      rw [hspace]
      rfl
    | true =>
      rw [hc, if_pos rfl] at h
      obtain ⟨htab, hrest⟩ := List.ne_and_not_mem_of_not_mem_cons h
      have hspace : (c == ' ') = true := by
        simpa [isIndent, htab.symm] using hc
      rw [hspace, if_pos rfl, if_pos rfl, ih hrest]

end Text

namespace Script

variable {head payload tail ls : List Text} {l : Text}

/-- The lines of a script below a header at the left margin: each of them is blank or begins with a
space, no tab indents one, and a statement is among those that are indented the least. -/
structure IsPayload (lines : List Text) : Prop where
  indented : ∀ l ∈ lines, isBlankText l = true ∨ l.head? = some ' '
  untabbed : ∀ l ∈ lines, isBlankText l = false → '\t' ∉ l.takeWhile isIndent
  grounded : ∃ l ∈ lines, isSkippable l = false ∧
    ∀ m ∈ lines, isBlankText m = false → indentOf l ≤ indentOf m

instance : Decidable (IsPayload ls) :=
  decidable_of_iff
    ((∀ l ∈ ls, isBlankText l = true ∨ l.head? = some ' ') ∧
      (∀ l ∈ ls, isBlankText l = false → '\t' ∉ l.takeWhile isIndent) ∧
      ∃ l ∈ ls, isSkippable l = false ∧
        ∀ m ∈ ls, isBlankText m = false → indentOf l ≤ indentOf m)
    ⟨fun ⟨indented, untabbed, grounded⟩ => ⟨indented, untabbed, grounded⟩,
      fun h => ⟨h.indented, h.untabbed, h.grounded⟩⟩

/-- Lines that end a script: there are none, or the first one stands at the left margin and is not
blank. -/
def BeginsAtMargin (lines : List Text) : Prop :=
  ∀ l ∈ lines.head?, isBlankText l = false ∧ l.head?.any isIndent = false

instance : Decidable (BeginsAtMargin ls) :=
  inferInstanceAs (Decidable (∀ l ∈ ls.head?, isBlankText l = false ∧ l.head?.any isIndent = false))

theorem isBlankText_of_statement (h : isSkippable l = false) : isBlankText l = false :=
  Bool.eq_false_iff.mpr fun hblank => trim_ne_nil_of_statement h (isBlankText_iff_trim.mp hblank)

namespace IsPayload

variable (h : IsPayload payload)
include h

theorem exists_statement : ∃ l ∈ payload, isSkippable l = false := by
  obtain ⟨l, hl, hskip, -⟩ := h.grounded
  exact ⟨l, hl, hskip⟩

theorem ne_nil : payload ≠ [] := by
  obtain ⟨l, hl, -⟩ := h.grounded
  exact List.ne_nil_of_mem hl

theorem indentOf_eq (hl : l ∈ payload) (hvisible : isBlankText l = false) :
    Extract.indentOf l = indentOf l :=
  congrArg List.length (takeWhile_isIndent (h.untabbed l hl hvisible))

/-- **Both readers take away the same indentation.** -/
theorem isGrounded : IsGrounded payload := by
  obtain ⟨l, hl, hskip, hle⟩ := h.grounded
  have hvisible := isBlankText_of_statement hskip
  have hbase : baseIndent payload = indentOf l :=
    baseIndent_eq_of hl hskip fun m hm hm' => hle m hm (isBlankText_of_statement hm')
  have hshared : Extract.sharedIndent payload = Extract.indentOf l := by
    refine Extract.sharedIndent_eq_of hl hvisible fun m hm hm' => ?_
    rw [h.indentOf_eq hl hvisible, h.indentOf_eq hm hm']
    exact hle m hm hm'
  intro _
  rw [hshared, hbase, h.indentOf_eq hl hvisible]
  exact ⟨rfl, hle⟩

/-- The script ends where lines at the left margin begin. -/
theorem takeWhile_append (htail : BeginsAtMargin tail) :
    (payload ++ tail).takeWhile (fun l => isBlankText l || l.head?.any isIndent) = payload := by
  have hinside : ∀ l ∈ payload, (isBlankText l || l.head?.any isIndent) = true := by
    intro l hl
    rcases h.indented l hl with hblank | hspace
    · rw [hblank, Bool.true_or]
    · rw [hspace]
      exact Bool.or_true _
  rw [List.takeWhile_append_of_pos hinside]
  cases tail with
  | nil => exact List.append_nil payload
  | cons t rest =>
    obtain ⟨hvisible, hmargin⟩ := htail t rfl
    rw [List.takeWhile_cons, hvisible, hmargin]
    exact List.append_nil payload

end IsPayload

end Script

namespace Extract

variable {head payload tail : List Text}

/-- **The lines of the script** are found, but for blank lines at its end. -/
theorem payload?_unlines (hhead : ∀ l ∈ head, isStrictHeader l = false)
    (hpayload : Script.IsPayload payload) (htail : Script.BeginsAtMargin tail)
    (hinline : ∀ l ∈ head ++ payload ++ tail, '\n' ∉ l ∧ '\r' ∉ l) :
    ∃ body blanks, payload? (unlines (head ++ Script.codeHeader :: (payload ++ tail))) = some body ∧
      (∀ l ∈ blanks, trim l = []) ∧ body ++ blanks = payload := by
  rw [List.append_assoc, List.forall_mem_append] at hinline
  obtain ⟨hinhead, hinbelow⟩ := hinline
  have hbelow := below?_unlines Script.codeHeader
    (fun l hl => ⟨hhead l hl, (hinhead l hl).1⟩) rfl (by decide)
    (List.append_ne_nil_of_left_ne_nil hpayload.ne_nil tail)
  -- cutting may lose an empty line at the end, and this may be one of the script
  obtain ⟨m, hlines⟩ := exists_lines_unlines hinbelow
  obtain ⟨blanks, hblanks, hbody⟩ := exists_takeWhile_append
    (fun l => isBlankText l || l.head?.any isIndent) (Text.lines (unlines (payload ++ tail)))
    (List.replicate m [])
  rw [hlines, hpayload.takeWhile_append htail] at hbody
  have hblank : ∀ l ∈ blanks, trim l = [] := fun l hl => trim_of_mem_replicate m l (hblanks hl)
  refine ⟨_, blanks, ?_, hblank, hbody⟩
  have hcontent : ((Text.lines (unlines (payload ++ tail))).takeWhile
      fun l => isBlankText l || l.head?.any isIndent).all isBlankText = false := by
    obtain ⟨l, hl, hskip⟩ := hpayload.exists_statement
    rw [← hbody] at hl
    refine List.all_eq_false.mpr ⟨l, ?_, ?_⟩
    · refine (List.mem_append.mp hl).resolve_right fun hl => ?_
      exact Script.trim_ne_nil_of_statement hskip (hblank l hl)
    · rw [Script.isBlankText_of_statement hskip]
      exact Bool.false_ne_true
  rw [payload?, strictPayload?, hbelow, Option.bind_eq_bind, Option.bind_some]
  dsimp only
  rw [withContent?, hcontent]
  rfl

end Extract

namespace Script

variable {head payload tail ls : List Text}

/-- What is read from joined lines is what is read from the lines. -/
theorem decompile_unlines (h : ∀ l ∈ ls, '\n' ∉ l ∧ '\r' ∉ l) :
    decompile (unlines ls) = steps (baseIndent ls) ls := by
  obtain ⟨m, hlines⟩ := exists_lines_unlines h
  have hblank := trim_of_mem_replicate m
  rw [decompile_eq_steps, ← baseIndent_append_blank hblank, ← steps_append_blank hblank, hlines]

/-- **The plan of a block has the steps of its script**, whatever stands above the header of the
script and below the script. -/
theorem extract_unlines (hhead : ∀ l ∈ head, Extract.isStrictHeader l = false)
    (hpayload : IsPayload payload) (htail : BeginsAtMargin tail)
    (hinline : ∀ l ∈ head ++ payload ++ tail, '\n' ∉ l ∧ '\r' ∉ l) :
    (extract (unlines (head ++ codeHeader :: (payload ++ tail)))).map Plan.steps =
      some (decompile (unlines payload)) := by
  obtain ⟨body, blanks, hbody, hblank, hsplit⟩ :=
    Extract.payload?_unlines hhead hpayload htail hinline
  have hlines : ∀ l ∈ payload, '\n' ∉ l ∧ '\r' ∉ l := fun l hl =>
    hinline l (List.mem_append_left tail (List.mem_append_right head hl))
  have hsteps : steps 0 (Extract.dedent body) = decompile (unlines payload) := by
    rw [← steps_dedent_append_blank hblank, hsplit, decompile_unlines hlines]
    exact steps_dedent hpayload.isGrounded hpayload.exists_statement
  rw [extract, hbody, Option.bind_eq_bind, Option.bind_some, readBlock_eq, List.drop_zero, hsteps]
  rfl

/-- Lines with two headers that are not at the left margin or do not stand alone. -/
def linesAbove : List Text :=
  ["id: interview_order".toList, "metadata:".toList, "  code: |".toList, "code: later".toList]

/-- Lines with a comment that is indented deeper than the statements, blank lines that are shorter
than their indentation, and a call that is not closed. -/
def payloadLines : List Text :=
  ["      # plan".toList, " ".toList, "    if ready:".toList, "      date".toList, [],
    "    store_variables_snapshot(".toList, "        data=data".toList, []]

/-- Lines with another script. -/
def linesBelow : List Text := ["---".toList, "code: |".toList, "  name".toList]

/-- Neither the headers above the script nor the script below it are taken for it. -/
theorem extract_unlines_payloadLines :
    (∀ l ∈ linesAbove, Extract.isStrictHeader l = false) ∧ IsPayload payloadLines ∧
      BeginsAtMargin linesBelow ∧
      (∀ l ∈ linesAbove ++ payloadLines ++ linesBelow, '\n' ∉ l ∧ '\r' ∉ l) ∧
      (extract (unlines (linesAbove ++ codeHeader :: (payloadLines ++ linesBelow)))).map
        Plan.steps = some (decompile (unlines payloadLines)) := by
  have hhead : ∀ l ∈ linesAbove, Extract.isStrictHeader l = false := by decide
  have hpayload : IsPayload payloadLines := by decide +kernel
  have htail : BeginsAtMargin linesBelow := by decide
  have hinline : ∀ l ∈ linesAbove ++ payloadLines ++ linesBelow, '\n' ∉ l ∧ '\r' ∉ l := by
    decide +kernel
  exact ⟨hhead, hpayload, htail, hinline, extract_unlines hhead hpayload htail hinline⟩

end Script

end InterviewPlan
