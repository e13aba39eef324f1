import InterviewPlan.Proofs.Script.Image

/-!
# What stands behind quoted text

The name of a section and the data of a snapshot are written in quotation marks, so that they may
say anything: marks, backslashes, parentheses and comments among it do not reach the step behind
them.  A line feed does, as it ends the line inside of the quotation; and a text of the data that is
an expression is not quoted at all.

## Main results

* `Script.decompile_eq_ask_iff`: which lines are read as steps that ask for them
* `Script.extract_compile_quoted`: what is read of a quoted text and the step behind it
* `Script.damages_of_unquoted`: line feeds and expressions change the step behind them
-/

namespace InterviewPlan

open Text Statement

namespace Script

variable {id v : Text}

/-- **A line is read as a step that asks for it** exactly if that step is legible. -/
theorem decompile_eq_ask_iff : decompile v = [.ask v] ↔ (Step.ask v).Legible := by
  constructor
  · intro h
    have hfeed : ∀ l ∈ Text.lines v, '\n' ∉ l := fun l => notMem_lineFeed_of_mem_lines
    have hread := legible_steps (n := baseIndent (Text.lines v)) hfeed
    rw [← decompile_eq_steps, h] at hread
    cases hread with
    | cons head _ _ => exact head.1
  · intro h
    have hlines : Text.lines v = [v] := by
      have hline := isLine_of_isInline h.readable.1
      have hread : Text.lines (unlines [v]) = [v] :=
        lines_unlines (by simpa using hline.1) (by simpa using hline.2)
      rwa [unlines_singleton] at hread
    have hbase : baseIndent [v] = 0 := by
      have hskip : isSkippable v = false :=
        isSkippable_pad_append (n := 0) h.readable.1.isTrimmed h.readable.2.1
      simp [baseIndent, hskip, indentOf_eq_zero h.readable.1.isTrimmed]
    have hclear : Step.Throughout (fun s rest => s.Readable ∧ s.Unambiguous rest) [.ask v] :=
      .cons ⟨h.readable, trivial⟩ (fun _ hb => absurd hb List.not_mem_nil) .nil
    rw [decompile_eq_steps, hlines, hbase]
    exact steps_emit hclear (endsBlock_nil 0)

section Plain

variable (hid : IsInline id) (hhead : id.head?.any isQuotationMark = false)
  (hlast : id.getLast?.any isQuotationMark = false) (hv : (Step.ask v).Legible)
include hid hhead hlast hv

/-- A legible step without blocks does not change the step behind it. -/
theorem extract_compile_pair {s : Step} (hs : s.Legible) (hblocks : s.blocks = [])
    (hclear : s.Unambiguous [.ask v]) (mandatory : Bool) :
    extract (compile ⟨id, mandatory, [s, .ask v]⟩) =
      some ⟨id, true, [normalStep s, .ask v]⟩ := by
  have hbelow : ∀ {p : Step → List Step → Prop}, ∀ block ∈ s.blocks, Step.Throughout p block := by
    intro p block hb
    rw [hblocks] at hb
    cases hb
  exact extract_compile_eq_normal hid (.cons hs hbelow (.cons hv nofun .nil))
    ⟨hhead, hlast, .cons hclear hbelow (.cons trivial nofun .nil)⟩

end Plain

/-- **Quoted text does not change the step behind it.**  A section and the step behind it are read
as they were written exactly if the name of the section has no line feed.  So are a snapshot, apart
from its arguments, and the step behind it if no text of the data has a line feed, and none of those
that are no keys is an expression or the entries are balanced all the same. -/
theorem extract_compile_quoted (hid : IsInline id) (hhead : id.head?.any isQuotationMark = false)
    (hlast : id.getLast?.any isQuotationMark = false) (hask : decompile v = [.ask v])
    (mandatory : Bool) :
    (∀ s : Text, extract (compile ⟨id, mandatory, [.enter s, .ask v]⟩) =
        some ⟨id, true, [.enter s, .ask v]⟩ ↔ '\n' ∉ s) ∧
      ∀ args : Snapshot, (∀ t ∈ args.texts, '\n' ∉ t) →
        ((∀ t ∈ args.strings, isExpression t = false) ∨ args.IsBalanced) →
          extract (compile ⟨id, mandatory, [.snapshot args, .ask v]⟩) =
            some ⟨id, true, [.snapshot .plain, .ask v]⟩ := by
  have hv : (Step.ask v).Legible := decompile_eq_ask_iff.mp hask
  refine ⟨fun s => ⟨fun h => ?_, fun h => ?_⟩, fun args hfeed hparens => ?_⟩
  · cases (eq_of_extract h).2.2 with
    | cons head _ _ => exact head.1.keepsLines
  · exact extract_compile_pair hid hhead hlast hv (s := .enter s) ⟨trivial, h⟩ rfl trivial mandatory
  · have hstrings : args.strings ⊆ args.texts := Json.memberStrings_subset_memberTexts args.data
    have hentries : ∀ entry ∈ args.entryTexts, '\n' ∉ entry :=
      isAdditive_notMem_lineFeed.entryTexts (fun t ht => notMem_lineFeed_quote (hfeed t ht))
        fun t ht _ => hfeed t (hstrings ht)
    have hbalanced : args.IsBalanced :=
      hparens.elim Snapshot.isBalanced_of_strings fun h => h
    exact extract_compile_pair hid hhead hlast hv (s := .snapshot args) ⟨hbalanced, hentries⟩ rfl
      trivial mandatory

theorem decompile_x : decompile "x".toList = [.ask "x".toList] :=
  decompile_eq_ask_iff.mpr ⟨⟨by decide, by decide, by decide, rfl⟩, trivial⟩

/-- Data whose keys and texts are full of marks, at two depths. -/
def quotedSample : Snapshot :=
  ⟨false, [(")\"#(".toList,
    .arr [.str "\\".toList, .obj [("user_info(".toList, .str "' ) #".toList)]])]⟩

/-- Quoted marks do not change the step behind them. -/
theorem extract_compile_quoted_sample :
    IsInline "main".toList ∧ decompile "x".toList = [.ask "x".toList] ∧
      (∀ t ∈ quotedSample.texts, '\n' ∉ t) ∧
      (∀ t ∈ quotedSample.strings, isExpression t = false) ∧
      extract (compile ⟨"main".toList, true, [.enter "a\"b) # \\(".toList, .ask "x".toList]⟩) =
        some ⟨"main".toList, true, [.enter "a\"b) # \\(".toList, .ask "x".toList]⟩ ∧
      extract (compile ⟨"main".toList, true, [.snapshot quotedSample, .ask "x".toList]⟩) =
        some ⟨"main".toList, true, [.snapshot .plain, .ask "x".toList]⟩ := by
  have hid : IsInline "main".toList := by decide
  have hfeed : ∀ t ∈ quotedSample.texts, '\n' ∉ t := by decide
  have hstrings : ∀ t ∈ quotedSample.strings, isExpression t = false := by decide
  obtain ⟨hsection, hsnapshot⟩ := extract_compile_quoted hid rfl rfl decompile_x true
  exact ⟨hid, decompile_x, hfeed, hstrings, (hsection _).mpr (by decide),
    hsnapshot quotedSample hfeed (Or.inl hstrings)⟩

/-- A step in front of another one, in a block that is not read as the two steps that are
expected. -/
def Damages (s expected : Step) : Prop :=
  extract (compile ⟨"main".toList, true, [s, .ask "x".toList]⟩) ≠
    some ⟨"main".toList, true, [expected, .ask "x".toList]⟩

/-- The kinds of the steps that are read tell what has been damaged. -/
theorem damages_of {s expected : Step}
    (h : (extract (compile ⟨"main".toList, true, [s, .ask "x".toList]⟩)).map
      (·.steps.map Step.kind) ≠ some [expected.kind, .ask]) : Damages s expected :=
  fun heq => h (congrArg (Option.map (·.steps.map Step.kind)) heq)

/-- **Not all text is protected.**  A line feed in the name of a section, in a key or in a text of
the data cuts a line in two; and parentheses that an expression leaves open swallow the step behind
the snapshot. -/
theorem damages_of_unquoted :
    decompile "x".toList = [.ask "x".toList] ∧
      Damages (.enter "a\nb".toList) (.enter "a\nb".toList) ∧
      Damages (.snapshot ⟨true, [("a\nb".toList, .null)]⟩) (.snapshot .plain) ∧
      Damages (.snapshot ⟨true, [("k".toList, .str "a\nb".toList)]⟩) (.snapshot .plain) ∧
      Damages (.snapshot ⟨true, [("k".toList, .str "showifdef((".toList)]⟩) (.snapshot .plain) := by
  refine ⟨decompile_x, damages_of ?_, damages_of ?_, damages_of ?_, damages_of ?_⟩
  · decide +kernel
  · decide +kernel
  · decide +kernel
  · decide +kernel

end Script

end InterviewPlan
