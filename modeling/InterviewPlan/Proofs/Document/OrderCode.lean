import InterviewPlan.Document.Analysis
import InterviewPlan.Proofs.Script.Layout

/-!
# The code of an order block

An order block lists the lines of the code that YAML finds in it, and it carries the plan that is
taken out of its text.  The two describe the same code where the text shows it as YAML reads it:
under the header at which the script is looked for, line by line, up to the end of the script.  The
script is then moved to the left by the indentation of its lines, and the code is read from the
least indentation of a statement, so that both must also agree on what that is.

## Main definitions

* `Document.orderCode?`: the code that order items are taken from
* `Document.ShowsBelow`, `Document.Shows`: a block whose text shows a code

## Main results

* `Document.extract_of_shows`: the plan of a block that shows its code
* `Document.plan_agrees_with_orderItems`: plan and order items describe the same code
-/

namespace InterviewPlan

open Text

namespace Document

/-- The code that order items are taken from: that of the nested order block, if there is one. -/
def orderCode? (block : Yaml.Mapping) : Option Text :=
  (((nestedOrder? block).getD block).get? "code".toList).bind Yaml.Value.text?

/-- A block shows a code below a header if the lines of the code are those below it, moved to the
left by a number of blanks, blank lines at the end aside.  The lines are indented further than the
header, and what comes after them is not. -/
structure ShowsBelow (block code header : Text) (body after : List Text) (width : Nat) : Prop where
  header? : Extract.header? block = some (header, body ++ after)
  deeper : Extract.indentOf header < width
  indented : ∀ l ∈ body, isBlankText l = false → width ≤ Script.indentOf l
  lines : ∃ m n,
    Text.lines code ++ .replicate m [] = body.map (·.drop width) ++ .replicate n []
  ends : ∀ l ∈ after.head?, isBlankText l = false ∧ Extract.indentOf l ≤ Extract.indentOf header

/-- A block shows a code below the header at which its script is looked for. -/
def Shows (block code : Text) : Prop :=
  ∃ header body after width, ShowsBelow block code header body after width

variable {block code header : Text} {body after : List Text} {width : Nat}

section Shows

variable (h : ShowsBelow block code header body after width)
include h

/-- The script of a block that shows a code is what the block shows. -/
theorem ShowsBelow.payload? : Extract.payload? block = Extract.withContent? body := by
  have hbody : (body ++ after).takeWhile
      (fun l => isBlankText l || decide (Extract.indentOf header < Extract.indentOf l)) = body := by
    rw [List.takeWhile_append_of_pos]
    · cases hafter : after with
      | nil => simp
      | cons l rest =>
        obtain ⟨hblank, hindent⟩ := h.ends l (by simp [hafter])
        rw [List.takeWhile_cons_of_neg (by simp [hblank, hindent]), List.append_nil]
    · intro l hl
      cases hblank : isBlankText l with
      | true => rfl
      | false =>
        rw [Bool.false_or, decide_eq_true_iff]
        exact h.deeper.trans_le (Extract.le_indentOf (h.indented l hl hblank))
  rw [Extract.payload?_eq, h.header?, Option.bind_some, hbody]

theorem ShowsBelow.all_isBlankText :
    (Text.lines code).all isBlankText = body.all isBlankText := by
  obtain ⟨m, n, heq⟩ := h.lines
  have hline : ∀ l ∈ body, isBlankText (l.drop width) = isBlankText l := by
    intro l hl
    cases hblank : isBlankText l with
    | true => exact Extract.isBlankText_drop hblank width
    | false => exact (Extract.isBlankText_drop_eq (h.indented l hl hblank)).trans hblank
  have hdrop : (body.map (·.drop width)).all isBlankText = body.all isBlankText := by
    rw [Bool.eq_iff_iff, List.all_eq_true, List.all_eq_true, List.forall_mem_map]
    exact forall₂_congr fun l hl => by rw [hline l hl]
  have hall := congrArg (·.all isBlankText) heq
  have hnil : isBlankText [] = true := rfl
  simpa [List.all_append, List.all_replicate, hnil, hdrop] using hall

/-- A line that the block shows says the same as the line of the code. -/
theorem ShowsBelow.isSkippable (hcode : ∀ l ∈ Text.lines code, Script.isSkippable l = true) :
    ∀ l ∈ body, Script.isSkippable l = true := by
  intro l hl
  obtain ⟨m, n, heq⟩ := h.lines
  have hmem : l.drop width ∈ Text.lines code ++ .replicate m [] := by
    rw [heq]
    exact List.mem_append_left _ (List.mem_map_of_mem hl)
  have hskip : Script.isSkippable (l.drop width) = true := by
    rcases List.mem_append.mp hmem with hmem | hmem
    · exact hcode _ hmem
    · rw [List.eq_of_mem_replicate hmem]
      rfl
  cases hblank : isBlankText l with
  | true => simp [Script.isSkippable, isBlankText_iff_trim.mp hblank]
  | false =>
    have hwidth := Extract.le_indentOf (h.indented l hl hblank)
    rwa [Script.isSkippable, Extract.trim_drop hwidth] at hskip

/-- **The script that a block shows has the steps of the code**, if both agree on its least
indentation. -/
theorem ShowsBelow.steps_dedent (hgrounded : Script.IsGrounded (Text.lines code)) :
    Script.steps 0 (Extract.dedent body) = Script.decompile code := by
  have hdecompile := Script.decompile_eq_steps code
  by_cases hstatement : ∃ l ∈ Text.lines code, Script.isSkippable l = false
  · obtain ⟨m, n, heq⟩ := h.lines
    have hvisible : ∃ l ∈ body, isBlankText l = false := by
      have hall : body.all isBlankText = false := by
        obtain ⟨l, hl, hskip⟩ := hstatement
        rw [← h.all_isBlankText, List.all_eq_false]
        refine ⟨l, hl, fun hblank => ?_⟩
        rw [Script.isSkippable, isBlankText_iff_trim.mp hblank] at hskip
        cases hskip
      simpa using hall
    calc Script.steps 0 (Extract.dedent body)
        = Script.steps 0 (Extract.dedent (body.map (·.drop width) ++ .replicate n [])) := by
          rw [Script.steps_dedent_append_blank (trim_of_mem_replicate n),
            Extract.dedent_map_drop h.indented hvisible]
      _ = Script.steps 0 (Extract.dedent (Text.lines code)) := by
          rw [← heq, Script.steps_dedent_append_blank (trim_of_mem_replicate m)]
      _ = Script.decompile code := by
          rw [Script.steps_dedent hgrounded hstatement, hdecompile]
  · have hcode : ∀ l ∈ Text.lines code, Script.isSkippable l = true := by
      simpa using hstatement
    rw [hdecompile, Script.steps_of_isSkippable hcode, Script.steps_of_isSkippable]
    intro l hl
    obtain ⟨x, hx, rfl⟩ := List.mem_map.mp hl
    rw [Extract.isSkippable_drop_sharedIndent hx]
    exact h.isSkippable hcode x hx

end Shows

/-- **The plan of a block that shows a code** has the steps of that code; there is none if the code
is blank. -/
theorem extract_of_shows (h : Shows block code)
    (hgrounded : Script.IsGrounded (Text.lines code)) :
    (Script.extract block).map Plan.steps =
      if (Text.lines code).all isBlankText then none else some (Script.decompile code) := by
  obtain ⟨header, body, after, width, h⟩ := h
  rw [Script.extract, h.payload?, Extract.withContent?, ← h.all_isBlankText]
  split
  · rfl
  · rw [← h.steps_dedent hgrounded, Option.bind_eq_bind, Option.bind_some, Script.readBlock_eq]
    rfl

section Analysis

variable {read : YamlReader} {segment : Segment} {value : Yaml.Value} {b : Block}

theorem analyzeSegment_of (h : read segment.text = .ok value) :
    analyzeSegment read segment = .ok (blockOfMapping segment (blockMapping value)) := by
  rw [analyzeSegment, h]

/-- What an order block tells about its code. -/
theorem eq_of_isOrder {m : Yaml.Mapping}
    (h : (blockOfMapping segment m).isOrder = true) :
    (blockOfMapping segment m).orderItems = ((orderCode? m).map orderItems).getD [] ∧
      (blockOfMapping segment m).plan = Script.extract segment.text :=
  ⟨if_pos h, if_pos h⟩

/-- **Plan and order items describe the same code.**  Where the text of an order block shows the
code that YAML finds in it, and both readers agree on the least indentation of that code, the order
items are the lines of the code and the plan has its steps. -/
theorem plan_agrees_with_orderItems (hvalue : read segment.text = .ok value)
    (hread : analyzeSegment read segment = .ok b) (horder : b.isOrder = true)
    (hcode : orderCode? (blockMapping value) = some code) (hshows : Shows segment.text code)
    (hgrounded : Script.IsGrounded (Text.lines code)) :
    b.orderItems = orderItems code ∧
      b.plan.map Plan.steps =
        if (Text.lines code).all isBlankText then none else some (Script.decompile code) := by
  rw [analyzeSegment_of hvalue] at hread
  obtain rfl := Except.ok.inj hread
  obtain ⟨hitems, hplan⟩ := eq_of_isOrder horder
  rw [hitems, hplan, hcode]
  exact ⟨rfl, extract_of_shows hshows hgrounded⟩

end Analysis

/-- The whole of a text as a segment. -/
def wholeSegment (text : Text) : Segment := ⟨0, text, ⟨0, Text.byteSize text⟩⟩

/-- An order block with its code in a mapping of its own, between other keys. -/
def shownSample : Text :=
  "interview_order:\n  mandatory: yes\n  code: |\n    a.b\n\n    if x:\n      c\nid: main".toList

/-- The code of the sample. -/
def shownCode : Text := "a.b\n\nif x:\n  c\n".toList

theorem shows_shownSample : Shows shownSample shownCode := by
  refine ⟨"  code: |".toList, ["    a.b".toList, [], "    if x:".toList, "      c".toList],
    ["id: main".toList], 4, ?_, ?_, ?_, ⟨0, 0, ?_⟩, ?_⟩
  all_goals decide +kernel

/-- A block whose plan and order items describe the same code. -/
theorem plan_agrees_with_orderItems_shownSample :
    ∃ value b, Yaml.parse shownSample = some value ∧
      analyzeSegment Yaml.parse (wholeSegment shownSample) = .ok b ∧ b.isOrder = true ∧
      orderCode? (blockMapping value) = some shownCode ∧ Shows shownSample shownCode ∧
      Script.IsGrounded (Text.lines shownCode) ∧
      b.orderItems = orderItems shownCode ∧
      b.plan.map Plan.steps = some (Script.decompile shownCode) := by
  have hcheck : (Yaml.parse shownSample).any (fun value =>
      (blockOfMapping (wholeSegment shownSample) (blockMapping value)).isOrder &&
        decide (orderCode? (blockMapping value) = some shownCode)) = true := by
    decide +kernel
  obtain ⟨value, hvalue, h⟩ := (Option.any_eq_true _ _).mp hcheck
  obtain ⟨horder, hcode⟩ := (Bool.and_eq_true _ _).mp h
  have hcode := of_decide_eq_true hcode
  have hsource := Text.Source.ofOption_of_eq_some hvalue
  have hread : analyzeSegment Yaml.parse (wholeSegment shownSample) =
      .ok (blockOfMapping (wholeSegment shownSample) (blockMapping value)) :=
    analyzeSegment_of hsource
  have hgrounded : Script.IsGrounded (Text.lines shownCode) := fun _ => by decide
  obtain ⟨hitems, hplan⟩ :=
    plan_agrees_with_orderItems hsource hread horder hcode shows_shownSample hgrounded
  exact ⟨value, _, hvalue, hread, horder, hcode, shows_shownSample, hgrounded, hitems,
    hplan.trans (if_neg (by decide))⟩

/-- An order block with a plan that is not read from the code of its order items. -/
def PlansOtherwise (text : Text) : Prop :=
  ∃ value b plan, Yaml.parse text = some value ∧
    analyzeSegment Yaml.parse (wholeSegment text) = .ok b ∧ b.isOrder = true ∧
    b.plan = some plan ∧
    ∀ code ∈ orderCode? (blockMapping value), plan.steps ≠ Script.decompile code

/-- Plan and code are told apart by the number of their steps. -/
theorem plansOtherwise_of {text : Text}
    (h : (Yaml.parse text).any (fun value =>
      let b := blockOfMapping (wholeSegment text) (blockMapping value)
      b.isOrder && b.plan.any fun plan => (orderCode? (blockMapping value)).all fun code =>
        decide (plan.steps.length ≠ (Script.decompile code).length)) = true) :
    PlansOtherwise text := by
  obtain ⟨value, hvalue, h⟩ := (Option.any_eq_true _ _).mp h
  obtain ⟨horder, h⟩ := (Bool.and_eq_true _ _).mp h
  obtain ⟨plan, hplan, h⟩ := (Option.any_eq_true _ _).mp h
  have hread : analyzeSegment Yaml.parse (wholeSegment text) =
      .ok (blockOfMapping (wholeSegment text) (blockMapping value)) :=
    analyzeSegment_of (Text.Source.ofOption_of_eq_some hvalue)
  refine ⟨value, _, plan, hvalue, hread, horder, hplan, ?_⟩
  intro code hcode heq
  rw [Option.mem_def.mp hcode, Option.all_some, decide_eq_true_iff, heq] at h
  exact h rfl

/-- **Plans that are not read from the code of the order items**: the code is not shown line by
line, it is not the code below the first header, the block goes on below the code, a comment is
indented the least, or tabs are a part of the indentation of statements or of a comment. -/
theorem plansOtherwise_of_not_shown :
    PlansOtherwise "id: interview_order\ncode:\n  a\n  b".toList ∧
      PlansOtherwise "id: interview_order\nmetadata:\n  code: |\n    a\n    b\ncode: c".toList ∧
      PlansOtherwise "id: interview_order\nmetadata:\n  code: |\n    a".toList ∧
      PlansOtherwise "id: interview_order\ncode: |\n  a\n # end".toList ∧
      PlansOtherwise "id: interview_order\ncode: |\n  # first\n    a".toList ∧
      PlansOtherwise "id: interview_order\ncode: |2\n  \ta\n  \t  b".toList ∧
      PlansOtherwise ("id: interview_order\ncode: |2\n   store_variables_snapshot(\n" ++
        "  \t# c\n    b\n   )").toList := by
  refine ⟨?_, ?_, ?_, ?_, ?_, ?_, ?_⟩
  all_goals exact plansOtherwise_of (by decide +kernel)

end Document

end InterviewPlan
