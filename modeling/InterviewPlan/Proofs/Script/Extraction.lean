import InterviewPlan.Proofs.Script.Payload

/-!
# Taking the lines of a plan out of its block

A block is written as four lines of its own and the script below them.  The fourth line is the
first header that is found, what stands below it is indented by two blanks, and these are taken away
again, so that the script is read from the lines that were written for the steps.

## Main definitions

* `Plan.IsUnambiguous`: a plan whose block is not taken for that of another

## Main results

* `Script.compile_eq`: the four lines of a block and the text below them
* `Detect.isOrder_compile`: a block that was written is recognised by its banner
* `Extract.payload?_compile`, `Extract.dedent_map`: the lines of its script are found
* `Script.extract_compile`: the plan that is taken out of a block that was written
* `Script.extract_compile_eq_normal`: it is the one that was written, in normal form
-/

namespace InterviewPlan

open Text Script

variable {plan : Plan} {ls : List Text} {l : Text}

namespace Script

/-- The lines of the script of a plan, as they stand at the left margin. -/
def scriptLines (plan : Plan) : List Text := orPlaceholder 0 (emit 0 plan.steps)

/-- **The lines of a block**: four of its own and those of the script, indented. -/
theorem blockLines_eq (plan : Plan) :
    blockLines plan =
      banner :: ("id: ".toList ++ plan.id) :: ("mandatory: ".toList ++ truth plan.mandatory) ::
        codeHeader :: (scriptLines plan).map (pad 2 ++ ·) := by
  have h := orPlaceholder_add 2 0 (emit 0 plan.steps)
  rw [← emit_add] at h
  rw [blockLines, scriptLines, ← h]
  rfl

theorem scriptLines_ne_nil (plan : Plan) : scriptLines plan ≠ [] := by
  unfold scriptLines orPlaceholder
  split
  · simp
  · next h => simpa using h

/-- **The text of a block**: its four lines, and the lines of its script as one text. -/
theorem compile_eq (plan : Plan) :
    compile plan =
      banner ++ '\n' :: ("id: ".toList ++ plan.id ++ '\n' ::
        ("mandatory: ".toList ++ truth plan.mandatory ++ '\n' ::
          (codeHeader ++ '\n' :: unlines ((scriptLines plan).map (pad 2 ++ ·))))) := by
  have hne : (scriptLines plan).map (pad 2 ++ ·) ≠ [] := by simpa using scriptLines_ne_nil plan
  rw [compile, blockLines_eq, unlines_cons _ (List.cons_ne_nil _ _),
    unlines_cons _ (List.cons_ne_nil _ _), unlines_cons _ (List.cons_ne_nil _ _),
    unlines_cons _ hne]

theorem notMem_lineFeed_mandatoryLine (b : Bool) : '\n' ∉ "mandatory: ".toList ++ truth b := by
  cases b <;> decide

section Legible

variable (h : Step.Throughout (fun s _ => s.Legible) plan.steps)
include h

theorem isLine_of_mem_scriptLines (hl : l ∈ scriptLines plan) : IsLine l := by
  rcases mem_orPlaceholder hl with hl | rfl
  · exact isLine_emit h hl
  · exact (isLine_of_isInline isInline_placeholder).pad 0

/-- The first line of a script stands at the left margin. -/
theorem exists_scriptLines_eq_cons : ∃ t rest, scriptLines plan = t :: rest ∧ IsInline t := by
  unfold scriptLines orPlaceholder
  cases hsteps : plan.steps with
  | nil => exact ⟨placeholder, [], rfl, isInline_placeholder⟩
  | cons s rest =>
    rw [hsteps] at h
    cases h with
    | cons head below tail =>
      obtain ⟨r, hr⟩ := emitStep_eq_cons 0 s
      refine ⟨headline s, r ++ emit 0 rest, ?_, isInline_headline head⟩
      rw [emit, hr]
      rfl

theorem isLine_of_mem_blockLines (hid : IsInline plan.id) (hl : l ∈ blockLines plan) :
    IsLine l := by
  rw [blockLines_eq] at hl
  rcases List.mem_cons.mp hl with rfl | hl
  · exact isLine_of_isInline (by decide)
  rcases List.mem_cons.mp hl with rfl | hl
  · refine ⟨hid.endsVisibly.append_left _, ?_⟩
    simpa using hid.2.2
  rcases List.mem_cons.mp hl with rfl | hl
  · cases plan.mandatory <;> exact isLine_of_isInline (by decide)
  rcases List.mem_cons.mp hl with rfl | hl
  · exact isLine_of_isInline (by decide)
  · obtain ⟨t, ht, rfl⟩ := List.mem_map.mp hl
    exact (isLine_of_mem_scriptLines h ht).pad 2

end Legible

end Script

namespace Detect

theorem mem_suffixes {s t : Text} : s ∈ suffixes t ↔ s <:+ t := by
  induction t with
  | nil => simp [suffixes]
  | cons c r ih => rw [suffixes, List.mem_cons, ih, List.suffix_cons_iff]

/-- What begins with the banner is recognised. -/
theorem hasBanner_append (rest : Text) : hasBanner (banner ++ rest) = true := by
  rw [hasBanner, List.any_eq_true]
  refine ⟨banner.drop 17 ++ rest, mem_suffixes.mpr ⟨banner.take 17, ?_⟩, rfl⟩
  rw [← List.append_assoc, List.take_append_drop]

/-- **A block that was written is recognised**, whatever its identifier and its label are. -/
theorem isOrder_compile (plan : Plan) (id : Text) (label : Option Text) :
    isOrder (compile plan) id label = true := by
  have hbanner : hasBanner (compile plan) = true := by
    rw [compile_eq]
    exact hasBanner_append _
  rw [isOrder, hbanner, Bool.or_true, Bool.true_or]

end Detect

namespace Extract

/-- What stands below the fourth line are the lines of the script, cut again at its line feeds. -/
theorem below?_compile (hid : '\n' ∉ plan.id) :
    below? isStrictHeader (compile plan) =
      some (codeHeader, lines (unlines ((scriptLines plan).map (pad 2 ++ ·)))) := by
  have hne : (scriptLines plan).map (pad 2 ++ ·) ≠ [] := by
    simpa using scriptLines_ne_nil plan
  have hidLine : '\n' ∉ "id: ".toList ++ plan.id := by simpa using hid
  have hmandatory := notMem_lineFeed_mandatoryLine plan.mandatory
  have hhead : ∀ l ∈ [banner, "id: ".toList ++ plan.id,
      "mandatory: ".toList ++ truth plan.mandatory], isStrictHeader l = false ∧ '\n' ∉ l :=
    List.forall_mem_cons.mpr ⟨⟨rfl, by decide⟩,
      List.forall_mem_cons.mpr ⟨⟨rfl, hidLine⟩, List.forall_mem_singleton.mpr ⟨rfl, hmandatory⟩⟩⟩
  rw [compile, blockLines_eq]
  exact below?_unlines codeHeader hhead rfl (by decide) hne

/-- Legible steps have their lines cut as they were written. -/
theorem lines_unlines_scriptLines (h : Step.Throughout (fun s _ => s.Legible) plan.steps) :
    lines (unlines ((scriptLines plan).map (pad 2 ++ ·))) =
      (scriptLines plan).map (pad 2 ++ ·) := by
  have hline : ∀ l ∈ (scriptLines plan).map (pad 2 ++ ·), IsLine l := by
    intro l hl
    obtain ⟨t, ht, rfl⟩ := List.mem_map.mp hl
    exact (isLine_of_mem_scriptLines h ht).pad 2
  exact lines_unlines (fun l hl => (hline l hl).1) fun l hl => (hline l hl).2

/-- **The lines of a script are found** in its block. -/
theorem payload?_compile (hid : '\n' ∉ plan.id)
    (h : Step.Throughout (fun s _ => s.Legible) plan.steps) :
    payload? (compile plan) = some ((scriptLines plan).map (pad 2 ++ ·)) := by
  have hindented : ((scriptLines plan).map (pad 2 ++ ·)).takeWhile
        (fun line => isBlankText line || line.head?.any isIndent) =
      (scriptLines plan).map (pad 2 ++ ·) := by
    rw [List.takeWhile_eq_self_iff]
    intro l hl
    obtain ⟨t, -, rfl⟩ := List.mem_map.mp hl
    exact Bool.or_eq_true_iff.mpr (Or.inr rfl)
  have hcontent : ((scriptLines plan).map (pad 2 ++ ·)).all isBlankText = false := by
    obtain ⟨t, rest, ht, hinline⟩ := exists_scriptLines_eq_cons h
    rw [ht, List.map_cons, List.all_cons, isBlankText_pad_append, hinline.isBlankText,
      Bool.false_and]
  rw [payload?, strictPayload?, below?_compile hid, lines_unlines_scriptLines h,
    Option.bind_eq_bind, Option.bind_some]
  dsimp only
  rw [hindented, withContent?, hcontent]
  rfl

/-- Lines share the indentation that was added to them, and no more if the first one had none. -/
theorem sharedIndent_map {t : Text} (ht : IsInline t) (rest : List Text) :
    sharedIndent ((t :: rest).map (pad 2 ++ ·)) = 2 := by
  have hfirst : indentOf (pad 2 ++ t) = 2 := by
    have hmargin : indentOf t = 0 :=
      indentWidth_eq_zero (fun _ => isBlank_of_isIndent) ht.isTrimmed
    rw [indentOf_pad_append, hmargin]
  refine (sharedIndent_eq_of (List.mem_map_of_mem List.mem_cons_self) ?_ ?_).trans hfirst
  · rw [isBlankText_pad_append, ht.isBlankText]
  · intro m hm _
    obtain ⟨x, -, rfl⟩ := List.mem_map.mp hm
    rw [hfirst, indentOf_pad_append]
    exact Nat.le_add_right 2 _

/-- **Indentation that was added to lines is taken away**, if the first of them had none. -/
theorem dedent_map {t : Text} (ht : IsInline t) (rest : List Text) :
    dedent ((t :: rest).map (pad 2 ++ ·)) = t :: rest := by
  rw [dedent, sharedIndent_map ht rest, List.map_map]
  exact List.map_id' _

/-- The value of a written identifier. -/
theorem idValue?_append {id : Text} (hid : IsInline id) :
    idValue? ("id: ".toList ++ id) = some id := by
  have hindent : ∀ o : Option Char, (∀ c ∈ o, isBlank c = false) → o.any isIndent = false := by
    intro o ho
    cases o with
    | none => rfl
    | some c =>
      rw [Option.any_some, Bool.eq_false_iff]
      intro hc
      have hblank := ho c rfl
      rw [isBlank_of_isIndent hc] at hblank
      cases hblank
  obtain ⟨hhead, hlast⟩ := trim_eq_self_iff.mp hid.2.1
  have hkey : afterKey? "id:".toList ("id: ".toList ++ id) = some id :=
    congrArg some (dropWhile_of_head? (hindent _ hhead))
  have hvisible : id.head?.any (!isBlank ·) = true := by
    obtain ⟨c, r, rfl, hc⟩ := exists_eq_cons_of_trim hid.1 hid.2.1
    simp [hc]
  rw [idValue?, hkey, Option.bind_eq_bind, Option.bind_some, if_pos hvisible,
    dropEndWhile_of_getLast? (hindent _ hlast)]

/-- **The identifier of a block** reads back if no quotation marks surround it. -/
theorem id?_compile (hid : IsInline plan.id) (h : Step.Throughout (fun s _ => s.Legible) plan.steps)
    (hhead : plan.id.head?.any isQuotationMark = false)
    (hlast : plan.id.getLast?.any isQuotationMark = false) :
    id? (compile plan) = some plan.id := by
  have hline : ∀ l ∈ blockLines plan, IsLine l := fun l => isLine_of_mem_blockLines h hid
  have hraw : rawLines (compile plan) = blockLines plan :=
    rawLines_unlines (fun l hl => (hline l hl).1.ne_nil) fun l hl => (hline l hl).2
  have hbanner : idValue? banner = none := rfl
  have hmarks : trimMatches isQuotationMark plan.id = plan.id := by
    rw [trimMatches, dropWhile_of_head? hhead, dropEndWhile_of_getLast? hlast]
  rw [id?, hraw, blockLines_eq, List.findSome?_cons, hbanner]
  dsimp only
  rw [List.findSome?_cons, idValue?_append hid]
  dsimp only
  rw [Option.bind_eq_bind, Option.bind_some, hmarks, hid.2.1, if_neg (by simpa using hid.1)]

end Extract

namespace Script

/-- **The plan that is taken out of a block that was written**: its script is read from the lines
that were written for its steps. -/
theorem extract_compile (hid : '\n' ∉ plan.id)
    (h : Step.Throughout (fun s _ => s.Legible) plan.steps) :
    extract (compile plan) =
      some ⟨(Extract.id? (compile plan)).getD Extract.fallbackId, true,
        steps 0 (scriptLines plan)⟩ := by
  obtain ⟨t, rest, ht, hinline⟩ := exists_scriptLines_eq_cons h
  have hdedent : Extract.dedent ((scriptLines plan).map (pad 2 ++ ·)) = scriptLines plan := by
    rw [ht]
    exact Extract.dedent_map hinline rest
  rw [extract, Extract.payload?_compile hid h, Option.bind_eq_bind, Option.bind_some, hdedent,
    readBlock_eq]
  rfl

theorem extractOrder_compile_eq (plan : Plan) (id : Text) (label : Option Text) :
    extractOrder (compile plan) id label = extract (compile plan) := by
  rw [extractOrder, Detect.isOrder_compile, if_pos rfl]

end Script

/-- A plan whose block is not taken for that of another: no quotation mark stands at either end of
its identifier, and its steps are unambiguous at every depth. -/
structure Plan.IsUnambiguous (plan : Plan) : Prop where
  head : plan.id.head?.any isQuotationMark = false
  last : plan.id.getLast?.any isQuotationMark = false
  steps : Step.Throughout Step.Unambiguous plan.steps

instance : Decidable plan.IsUnambiguous :=
  decidable_of_iff
    (plan.id.head?.any isQuotationMark = false ∧ plan.id.getLast?.any isQuotationMark = false ∧
      Step.Throughout Step.Unambiguous plan.steps)
    ⟨fun ⟨head, last, steps⟩ => ⟨head, last, steps⟩, fun h => ⟨h.head, h.last, h.steps⟩⟩

namespace Script

/-- **A block reads back** as the plan that was written, in normal form, if its steps are legible
and nothing of it is taken for something else. -/
theorem extract_compile_eq_normal (hid : IsInline plan.id)
    (h : Step.Throughout (fun s _ => s.Legible) plan.steps) (hclear : plan.IsUnambiguous) :
    extract (compile plan) = some ⟨plan.id, true, normal plan.steps⟩ := by
  have hread : steps 0 (scriptLines plan) = normal plan.steps := by
    have hsteps := (h.and hclear.steps).mono fun _ _ hs => And.intro hs.1.readable hs.2
    have hemit := (steps_orPlaceholder 0 plan.steps []).trans (steps_emit hsteps (endsBlock_nil 0))
    rwa [List.append_nil] at hemit
  rw [extract_compile hid.2.2 h, Extract.id?_compile hid h hclear.head hclear.last, hread]
  rfl

end Script

end InterviewPlan
