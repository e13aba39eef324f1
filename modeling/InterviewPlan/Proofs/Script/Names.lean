import InterviewPlan.Document.Analysis
import InterviewPlan.Proofs.Script.Extent
import InterviewPlan.Proofs.Script.Rules

/-!
# Names in the order of the lines

The names in a plan are the values that are asked for and the steps that run once.  Each of them is
the text of a line of the script, and going through the plan from its first step on, the branch
before the else-branch, one comes by the names in the order of these lines.  So reading invents no
name, reads none twice and changes no order, although it looks ahead in several ways.

## Main definitions

* `Step.names`, `Script.names`: the names in a step and in a plan
* `Script.statementTexts`: the lines that hold statements, without outer blanks

## Main results

* `Script.Reads.names_sublist`: the names that are read stand in the lines of the block
* `Script.names_decompile_sublist_orderItems`: those of a script are among its order items
-/

namespace InterviewPlan

open Text Statement

mutual

/-- The names in a step, in the order in which it is carried out. -/
def Step.names : Step → List Text
  | .ask var => [var]
  | .once name _ => [name]
  | .branch _ yes none => Script.names yes
  | .branch _ yes (some no) => Script.names yes ++ Script.names no
  | .loop _ _ body => Script.names body
  | _ => []

/-- The names in steps at all depths. -/
def Script.names : List Step → List Text
  | [] => []
  | s :: rest => s.names ++ Script.names rest

end

namespace Script

variable {n : Nat} {s : Step} {ns : List Step} {line t flag name : Text} {ls rest body : List Text}

/-- A step of a single line names nothing but the line. -/
theorem names_of_ofText (h : ofText t = .step s) : s.names.Sublist [t] := by
  rcases ofText_eq_step h with ⟨name, -, rfl⟩ | ⟨value, rfl⟩ | ⟨list, -, rfl⟩ | rfl
  · exact List.nil_sublist [t]
  · exact List.nil_sublist [t]
  · exact List.nil_sublist [t]
  · exact List.Sublist.refl [t]

/-! ### The lines that hold statements -/

/-- The texts of the lines that hold statements, without outer blanks. -/
def statementTexts (lines : List Text) : List Text :=
  (lines.map trim).filter fun t => !t.isEmpty && !isComment t

theorem statementTexts_append (ls ms : List Text) :
    statementTexts (ls ++ ms) = statementTexts ls ++ statementTexts ms := by
  rw [statementTexts, List.map_append, List.filter_append]
  rfl

theorem statementTexts_cons (line : Text) (rest : List Text) :
    statementTexts (line :: rest) =
      if isSkippable line then statementTexts rest else trim line :: statementTexts rest := by
  rw [statementTexts, List.map_cons, List.filter_cons, isSkippable, ← Bool.not_or]
  cases (trim line).isEmpty || isComment (trim line) <;> rfl

theorem statementTexts_of_skip (h : isSkippable line = true) (rest : List Text) :
    statementTexts (line :: rest) = statementTexts rest := by
  rw [statementTexts_cons, if_pos h]

theorem statementTexts_of_statement (h : isSkippable line = false) (rest : List Text) :
    statementTexts (line :: rest) = trim line :: statementTexts rest := by
  rw [statementTexts_cons, h]
  rfl

theorem statementTexts_sublist (h : ls.Sublist rest) :
    (statementTexts ls).Sublist (statementTexts rest) :=
  (h.map trim).filter _

/-- The name that a guard finds is a statement of its body. -/
theorem mem_statementTexts_of_guardedName? (h : guardedName? flag ls = some name) :
    name ∈ statementTexts ls := by
  have hname := List.find?_some h
  rw [Bool.and_eq_true] at hname
  exact List.mem_filter.mpr ⟨List.mem_of_find?_eq_some h, hname.1⟩

/-! ### The lines of a block and of the blocks inside of it -/

/-- The lines that belong to a block. -/
def blockPart (target : Nat) (lines : List Text) : List Text := lines.takeWhile (isInside target)

theorem blockPart_cons (h : isInside n line = true) (rest : List Text) :
    blockPart n (line :: rest) = line :: blockPart n rest :=
  List.takeWhile_cons_of_pos h

/-- The lines up to a place inside of a block come before the others of it. -/
theorem blockPart_eq_append {p : Text → Bool} (hp : ∀ l, p l = true → isInside n l = true)
    (ls : List Text) : blockPart n ls = ls.takeWhile p ++ blockPart n (ls.dropWhile p) := by
  have hall : ∀ l ∈ ls.takeWhile p, isInside n l = true := fun l hl =>
    hp l (List.mem_takeWhile_imp hl)
  conv_lhs => rw [← List.takeWhile_append_dropWhile (p := p) (l := ls)]
  rw [blockPart, List.takeWhile_append_of_pos hall, blockPart]

/-- The lines of a block that is indented deeper are the first ones. -/
theorem blockPart_inner (n : Nat) (ls : List Text) :
    blockPart n ls =
      blockPart (n + indentStep) ls ++ blockPart n (afterBlock (n + indentStep) ls) := by
  refine blockPart_eq_append (fun l hl => ?_) ls
  rw [isInside, Bool.or_eq_true, decide_eq_true_iff] at hl ⊢
  exact hl.imp_right (Nat.le_add_right n indentStep).trans

theorem blockPart_guard (n : Nat) (ls : List Text) :
    blockPart n ls =
      ls.takeWhile (isUnderGuard n) ++ blockPart n (ls.dropWhile (isUnderGuard n)) := by
  refine blockPart_eq_append (fun l hl => ?_) ls
  rw [isUnderGuard, Bool.or_eq_true, decide_eq_true_iff] at hl
  rcases hl with hblank | hlt
  · exact isInside_of_trim hblank
  · exact isInside_of_le hlt.le

/-- Lines that are reached inside of a block hold only statements of the block. -/
theorem blockPart_sublist (h : Passes n ls rest) : (blockPart n rest).Sublist (blockPart n ls) := by
  obtain ⟨passed, rfl, hpassed⟩ := h
  rw [blockPart, blockPart, List.takeWhile_append_of_pos hpassed]
  exact List.sublist_append_right passed _

/-! ### The names that are read -/

/-- **The names that are read stand in the lines of the block**, in their order. -/
theorem Reads.names_sublist (h : Reads n ls ns) :
    (names ns).Sublist (statementTexts (blockPart n ls)) := by
  -- a rule that reads a line leaves lines further down to the rules after it, and each block below
  -- a header is read from lines that come before those of the rest
  induction h with
  | nil n => exact List.nil_sublist _
  | skip hskip _ ih =>
    rwa [blockPart_cons (isInside_of_isSkippable hskip), statementTexts_of_skip hskip]
  | stop _ _ => exact List.nil_sublist _
  | pass hskip hle _ _ ih =>
    rw [blockPart_cons (isInside_of_le hle), statementTexts_of_statement hskip]
    exact ih.cons _
  | step hline hs _ ih =>
    rw [blockPart_cons hline.isInside, statementTexts_of_statement hline.isSkippable, names]
    exact (names_of_ofText hs).append ih
  | @guard n line cond rest after s ns hline _ honce _ ih =>
    obtain ⟨flag, name, -, hname, rfl, rfl⟩ := once?_eq_some honce
    have hmem := mem_statementTexts_of_guardedName? hname
    rw [blockPart_cons hline.isInside, statementTexts_of_statement hline.isSkippable,
      blockPart_guard, statementTexts_append, names]
    exact ((List.singleton_sublist.mpr hmem).append ih).cons _
  | @branch n line cond rest yes ns hline _ _ _ _ _ ihyes ih =>
    rw [blockPart_cons hline.isInside, statementTexts_of_statement hline.isSkippable,
      blockPart_inner, statementTexts_append, names]
    exact (ihyes.append ih).cons _
  | @branchElse n line cond rest body yes no ns hline _ _ helse _ _ _ ihyes ihno ih =>
    have helse' := statementTexts_sublist (blockPart_sublist (passes_elseBody? helse))
    rw [blockPart_inner, statementTexts_append] at helse'
    have hrest := ihyes.append ((ihno.append ih).trans helse')
    rw [blockPart_cons hline.isInside, statementTexts_of_statement hline.isSkippable,
      blockPart_inner, statementTexts_append, names, Step.names, List.append_assoc]
    exact hrest.cons _
  | @loop n line item iter rest block ns hline _ _ _ ihbody ih =>
    rw [blockPart_cons hline.isInside, statementTexts_of_statement hline.isSkippable,
      blockPart_inner, statementTexts_append, names]
    exact (ihbody.append ih).cons _
  | @storage n line rest ns hline _ _ ih =>
    have hpass : Passes n rest (afterCall n line rest) := passes_afterOpenCall ..
    rw [blockPart_cons hline.isInside, statementTexts_of_statement hline.isSkippable, names]
    exact (ih.trans (statementTexts_sublist (blockPart_sublist hpass))).cons _

/-- **No name is invented, read twice or moved**: the names in the plan of a script, in the order in
which it is carried out, are among the order items of the script in their order. -/
theorem names_decompile_sublist_orderItems (code : Text) :
    (names (decompile code)).Sublist (Document.orderItems code) := by
  have hall : blockPart (baseIndent (Text.lines code)) (Text.lines code) = Text.lines code :=
    List.takeWhile_eq_self_iff.mpr fun l hl => isInside_baseIndent hl
  have hnames := (reads_steps (baseIndent (Text.lines code)) (Text.lines code)).names_sublist
  rw [hall, ← decompile_eq_steps] at hnames
  exact hnames

end Script

end InterviewPlan
