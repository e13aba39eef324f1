import InterviewPlan.Proofs.Script.Headers

/-!
# Blocks of plans with arbitrary texts

The texts of a plan may look like anything: like headers, like identifiers, like `mandatory:` lines,
and they may be cut by line feeds.  The first four lines of a block are nevertheless its own, if no
line feed cuts the identifier, and each search ends at the first line of its kind: the banner is
recognised, the third line says whether the block is mandatory, and the fourth is the first header.
A script is found below it as soon as the next line is not blank, since this line begins with the
blanks that indent it.

## Main results

* `Extract.mandatory?_compile`: a block says whether its plan is mandatory
* `Extract.isSome_payload?_compile`: a block has a script if its fifth line is not blank
* `Script.recognized_compile`: a block is recognised, and has a plan, whatever the texts of its plan
-/

namespace InterviewPlan

open Text Script

variable {plan : Plan}

namespace Text

/-- The first line of a text begins with its first character, unless this belongs to an ending. -/
theorem exists_lines_cons {c : Char} (hfeed : c ≠ '\n') (hreturn : c ≠ '\r') (t : Text) :
    ∃ l ls, lines (c :: t) = (c :: l) :: ls := by
  have hending : ∀ l, dropEnding (c :: l) = c :: dropEnding l := fun l =>
    dropEnding_append (b := [c]) (by simpa using hfeed.symm) (by simpa using hreturn.symm) l
  rw [lines, fullLines, if_neg hfeed]
  cases fullLines t with
  | nil => exact ⟨dropEnding [], [], congrArg (List.cons · []) (hending [])⟩
  | cons l ls => exact ⟨dropEnding l, ls.map dropEnding, congrArg (List.cons · _) (hending l)⟩

end Text

namespace Script

/-- The first line of a script is indented, whatever it is. -/
theorem exists_lines_script (plan : Plan) :
    ∃ l ls, lines (unlines ((scriptLines plan).map (pad 2 ++ ·))) = (' ' :: l) :: ls := by
  obtain ⟨t, rest, hlines⟩ := List.exists_cons_of_ne_nil (scriptLines_ne_nil plan)
  have hblank : ∃ u, unlines ((scriptLines plan).map (pad 2 ++ ·)) = ' ' :: u := by
    rw [hlines, List.map_cons]
    cases rest with
    | nil => exact ⟨_, unlines_singleton _⟩
    | cons s rest => exact ⟨_, unlines_cons _ (List.cons_ne_nil _ _)⟩
  obtain ⟨u, hu⟩ := hblank
  rw [hu]
  exact exists_lines_cons (by decide) (by decide) u

/-- The fifth line of a block is the first one of its script. -/
theorem getElem?_lines_compile (hid : '\n' ∉ plan.id) :
    (lines (compile plan))[4]? =
      (lines (unlines ((scriptLines plan).map (pad 2 ++ ·)))).head? := by
  have hidLine : '\n' ∉ "id: ".toList ++ plan.id := by simpa using hid
  have hcode : '\n' ∉ codeHeader := by decide
  have hbanner : '\n' ∉ banner := by decide
  rw [compile_eq, lines, fullLines_append hbanner, fullLines_append hidLine,
    fullLines_append (notMem_lineFeed_mandatoryLine plan.mandatory), fullLines_append hcode,
    List.head?_eq_getElem?]
  rfl

end Script

namespace Extract

/-- **A block says whether its plan is mandatory**, whatever its identifier and its steps are. -/
theorem mandatory?_compile (hid : '\n' ∉ plan.id) :
    mandatory? (compile plan) = some plan.mandatory := by
  have hidLine : '\n' ∉ "id: ".toList ++ plan.id := by simpa using hid
  have hbanner : mandatoryValue? banner = none := rfl
  have hidValue : mandatoryValue? ("id: ".toList ++ plan.id) = none := rfl
  have hvalue : mandatoryValue? ("mandatory: ".toList ++ truth plan.mandatory) =
      some (truth plan.mandatory) := by
    cases plan.mandatory <;> rfl
  rw [mandatory?, compile_eq, rawLines_append (by decide), rawLines_append hidLine,
    rawLines_append (notMem_lineFeed_mandatoryLine plan.mandatory), List.findSome?_cons, hbanner]
  dsimp only
  rw [List.findSome?_cons, hidValue]
  dsimp only
  rw [List.findSome?_cons, hvalue]
  cases plan.mandatory <;> rfl

/-- **A block has a script** if its fifth line is not blank. -/
theorem isSome_payload?_compile (hid : '\n' ∉ plan.id)
    (hfirst : (lines (compile plan))[4]?.any (!isBlankText ·) = true) :
    (payload? (compile plan)).isSome = true := by
  obtain ⟨l, ls, hlines⟩ := exists_lines_script plan
  have hvisible : isBlankText (' ' :: l) = false := by
    rw [getElem?_lines_compile hid, hlines] at hfirst
    simpa using hfirst
  have hscript : HasScript codeHeader ((' ' :: l) :: ls) :=
    (hasScript_cons_of_visible hvisible).mpr (Nat.succ_pos _)
  rw [payload?, Option.isSome_or, Bool.or_eq_true]
  exact Or.inl (isSome_strictPayload?_iff.mpr ⟨_, below?_compile hid, hlines ▸ hscript⟩)

end Extract

namespace Script

/-- **A block that was written is recognised**, has a plan that counts as mandatory, and says itself
whether the plan is mandatory, if no line feed cuts its identifier and its fifth line, the one below
the header, is not blank.  Nothing else is asked of the texts of the plan. -/
theorem recognized_compile (plan : Plan) (id : Text) (label : Option Text) (hid : '\n' ∉ plan.id)
    (hfirst : (lines (compile plan))[4]?.any (!isBlankText ·) = true) :
    Detect.isOrder (compile plan) id label = true ∧
      (∃ b, extractOrder (compile plan) id label = some b ∧ b.mandatory = true) ∧
      Extract.mandatory? (compile plan) = some plan.mandatory := by
  obtain ⟨payload, hpayload⟩ :=
    Option.isSome_iff_exists.mp (Extract.isSome_payload?_compile hid hfirst)
  refine ⟨Detect.isOrder_compile plan id label, ?_, Extract.mandatory?_compile hid⟩
  rw [extractOrder_compile_eq, extract, hpayload]
  exact ⟨_, rfl, rfl⟩

/-- A plan whose identifier is a `mandatory:` line, and whose first step brings a header, an
identifier and a separator of its own. -/
def misleadingPlan : Plan :=
  ⟨"mandatory: yes".toList, false,
    [.enter "a\ncode: |\nid: b\n---\n  c".toList, .ask "\nmandatory: on".toList]⟩

/-- None of its texts is taken for a line of the block. -/
theorem recognized_compile_misleadingPlan :
    '\n' ∉ misleadingPlan.id ∧
      (lines (compile misleadingPlan))[4]?.any (!isBlankText ·) = true ∧
      Detect.isOrder (compile misleadingPlan) "x".toList none = true ∧
      (∃ b, extractOrder (compile misleadingPlan) "x".toList none = some b ∧
        b.mandatory = true) ∧
      Extract.mandatory? (compile misleadingPlan) = some false := by
  have hid : '\n' ∉ misleadingPlan.id := by decide
  have hfirst : (lines (compile misleadingPlan))[4]?.any (!isBlankText ·) = true := by
    decide +kernel
  exact ⟨hid, hfirst, recognized_compile misleadingPlan "x".toList none hid hfirst⟩

end Script

end InterviewPlan
