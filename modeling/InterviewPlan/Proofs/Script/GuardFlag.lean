import InterviewPlan.Proofs.Script.Extent

/-!
# Flags that survive their guard

The header of a guard has its flag twice, in quotation marks with backslashes as the argument of a
call, and once more as it is behind the call, where it is read from.  So the flag survives if the
end of the call is found.  A call is found to end behind the first quotation mark of its argument,
since a backslash in front of a mark is not looked at, or else at the first parenthesis.  A flag
with a mark and a parenthesis is cut in both ways.  What is read then has more marks than the flag,
as reading passes over no mark behind the call.

A flag that is derived from the name of its step has no such characters.  It is not taken for the
beginning of the name either, since it has more word characters.

## Main results

* `Pattern.count_of_guardTail?`: a flag has all quotation marks of what it is read from
* `Pattern.guardedFlag?_guardCondition_iff`: which flags are read back from their condition
* `Script.decompile_emit_once_iff`: which steps survive with their flags
* `Script.losesFlag_of_mark_and_parenthesis`: a step that does not
* `Script.guardedName?_derived`: a name is not taken for an assignment to its own flag
-/

namespace InterviewPlan

open Text Script Statement

/-! ### Characters that are passed over -/

namespace Pattern

variable {t flag rest word : Text} {c : Char}

theorem count_of_wordAfterBlanks? (h : wordAfterBlanks? word t = some rest)
    (hc : isBlank c = false) : t.count c = word.count c + rest.count c := by
  unfold wordAfterBlanks? at h
  split at h
  · rw [← count_trimStart hc, ← List.isPrefixOf?_eq_some_iff_append_eq.mp h, List.count_append]
  · cases h

theorem count_of_clause? (h : clause? t = some flag) (hc : isBlank c = false) :
    flag.count c = t.count c := by
  obtain ⟨-, ⟨-, rfl⟩ | ⟨d, rfl, hd, hblank, -⟩⟩ := clause?_eq_some h
  · exact count_trim hc t
  · rw [List.count_eq_zero.mpr (notMem_of_blank hc hblank), List.count_eq_zero]
    exact notMem_of_blank hc (by simpa using hd)

/-- **A flag has all quotation marks** of what it is read from. -/
theorem count_of_guardTail? (h : guardTail? t = some flag) : flag.count '"' = t.count '"' := by
  simp only [guardTail?, Option.bind_eq_bind, Option.bind_eq_some_iff] at h
  obtain ⟨u, hor, v, hnot, hclause⟩ := h
  have hmark : isBlank '"' = false := by decide
  have hu := count_of_wordAfterBlanks? hor hmark
  have hv := count_of_wordAfterBlanks? hnot hmark
  rw [show "or".toList.count '"' = 0 by decide] at hu
  rw [show "not".toList.count '"' = 0 by decide] at hv
  rw [count_of_clause? hclause hmark]
  omega

/-! ### Where a flag is cut -/

/-- The first parenthesis in an argument ends it, and the rest begins within the flag. -/
theorem exists_of_afterParenthesis?_quote (hp : ')' ∈ flag)
    (h : afterParenthesis? (quote flag ++ t) = some rest) : ∃ q, rest = q ++ '"' :: t := by
  obtain ⟨p, q, heq, hfirst⟩ := List.eq_append_cons_of_mem (mem_escaped_of_mem hp)
  have hquote : quote flag ++ t = ('"' :: p) ++ ')' :: (q ++ '"' :: t) := by
    rw [quote_eq, heq]
    simp
  have hfirst' : ')' ∉ '"' :: p := by simpa using hfirst
  rw [hquote, afterParenthesis?_append hfirst'] at h
  exact ⟨q, (Option.some.inj h).symm⟩

/-- **A guard reads back its flag** exactly if the flag does not have both a quotation mark and a
closing parenthesis. -/
theorem guardedFlag?_guardCondition_iff (h : IsInline flag) :
    guardedFlag? (guardCondition flag) = some flag ↔ ¬ ('"' ∈ flag ∧ ')' ∈ flag) := by
  refine ⟨?_, guardedFlag?_guardCondition h⟩
  rintro hread ⟨hm, hp⟩
  rw [guardedFlag?_eq] at hread
  obtain ⟨r, hr, hflag⟩ := List.exists_of_findSome?_eq_some hread
  obtain ⟨v, rfl, hv⟩ := Option.bind_eq_some_iff.mp hflag
  have hcut : ∃ q, v = q ++ '"' :: ')' :: (" or not ".toList ++ flag) := by
    rcases List.mem_cons.mp hr with hr | hr
    · exact (exists_of_afterQuotedArgument?_quote hm hr.symm).2
    rcases List.mem_cons.mp hr with hr | hr
    · cases hr
    · exact exists_of_afterParenthesis?_quote hp (List.mem_singleton.mp hr).symm
  obtain ⟨q, rfl⟩ := hcut
  have hcount := count_of_guardTail? hv
  simp only [List.count_append, List.count_cons_self] at hcount
  rw [List.count_cons_of_ne (by decide), List.count_append] at hcount
  omega

end Pattern

namespace Script

variable {n : Nat} {name flag : Text}

/-- A step that is read with the flag it was written with has that flag in its header. -/
theorem guardedFlag?_of_steps_emit_once (hreadable : (Step.once name (some flag)).Readable)
    (hflag : IsInline flag)
    (h : steps n (emit n [.once name (some flag)]) = [.once name (some flag)]) :
    Pattern.guardedFlag? (Pattern.guardCondition flag) = some flag := by
  have hline := holdsStatement_headline n hreadable
  have hcond : ofText (trim (pad n ++ headline (.once name (some flag)))) =
      .condition (Pattern.guardCondition flag) := by
    have hclause := Pattern.clause?_space (Pattern.isInline_guardCondition hflag)
    rw [trim_pad_headline n hreadable, headline_once, Step.effectiveFlag_some hflag,
      ofText_condition hclause]
  rw [emit, emitStep_once, List.cons_append] at h
  cases honce : once? n (Pattern.guardCondition flag)
      ([pad (n + 2) ++ name, pad (n + 2) ++ flagLine (Step.effectiveFlag name (some flag))] ++
        emit n []) with
  | none =>
    rw [steps_of_condition hline hcond honce] at h
    split at h <;> cases (List.cons.inj h).1
  | some read =>
    obtain ⟨s, after⟩ := read
    obtain ⟨flag', name', hread, -, rfl, -⟩ := once?_eq_some honce
    rw [steps_of_guard hline hcond honce] at h
    obtain ⟨-, hsame⟩ := Step.once.inj (List.cons.inj h).1
    rw [hread, hsame]

/-- **A step survives with the flag that was given to it**, at whatever indentation it is written,
exactly if the flag does not have both a quotation mark and a closing parenthesis. -/
theorem decompile_emit_once_iff (hname : IsInline name) (hcomment : isComment name = false)
    (hflag : IsInline flag) (hassigns : assigns flag name = false) (n : Nat) :
    decompile (unlines (emit n [.once name (some flag)])) = [.once name (some flag)] ↔
      ¬ ('"' ∈ flag ∧ ')' ∈ flag) := by
  have heffective : Step.effectiveFlag name (some flag) = flag := Step.effectiveFlag_some hflag
  have hlegible : (Step.once name (some flag)).Legible :=
    ⟨⟨hname, hcomment, heffective.symm ▸ hassigns, heffective.symm ▸ hflag⟩, trivial⟩
  have hread : decompile (unlines (emit n [.once name (some flag)])) =
      steps n (emit n [.once name (some flag)]) := by
    refine decompile_unlines_emit (fun l => isLine_emit (.leaf hlegible rfl .nil)) fun s hs => ?_
    obtain rfl := Option.some.inj hs
    exact holdsStatement_headline n hlegible.readable
  rw [hread]
  constructor
  · intro h
    have hsame := guardedFlag?_of_steps_emit_once hlegible.readable hflag h
    exact (Pattern.guardedFlag?_guardCondition_iff hflag).mp hsame
  · intro hmarks
    have hclear : (Step.once name (some flag)).Unambiguous [] := by
      rwa [Step.Unambiguous, heffective]
    have hsteps := steps_emit (.leaf ⟨hlegible.readable, hclear⟩ rfl .nil) (endsBlock_nil n)
    rw [List.append_nil] at hsteps
    rw [hsteps, normal, normal, normalStep, heffective]

/-- A flag with marks of both kinds, a backslash, a colon and an opening parenthesis. -/
def markedFlag : Text := "it's \"a\\b\":(".toList

/-- A step that survives with such a flag. -/
theorem decompile_emit_once_markedFlag :
    IsInline "notify".toList ∧ isComment "notify".toList = false ∧ IsInline markedFlag ∧
      assigns markedFlag "notify".toList = false ∧
      decompile (unlines (emit 4 [.once "notify".toList (some markedFlag)])) =
        [.once "notify".toList (some markedFlag)] := by
  have hname : IsInline "notify".toList := by decide
  have hflag : IsInline markedFlag := by decide
  have hassigns : assigns markedFlag "notify".toList = false := by decide
  have hsurvives := decompile_emit_once_iff hname rfl hflag hassigns 4
  exact ⟨hname, rfl, hflag, hassigns, hsurvives.mpr (by decide)⟩

/-- A step whose lines are not read as the step with the flag that was given to it. -/
def LosesFlag (name flag : Text) : Prop :=
  (IsInline name ∧ isComment name = false ∧ IsInline flag ∧ assigns flag name = false) ∧
    decompile (unlines (emit 0 [.once name (some flag)])) ≠ [.once name (some flag)]

/-- What is read is another step if it is told apart from it. -/
theorem losesFlag_of {α : Type} (f : List Step → α)
    (h : IsInline name ∧ isComment name = false ∧ IsInline flag ∧ assigns flag name = false)
    (hread : f (decompile (unlines (emit 0 [.once name (some flag)]))) ≠
      f [.once name (some flag)]) : LosesFlag name flag :=
  ⟨h, fun heq => hread (congrArg f heq)⟩

/-- **Flags that are lost.**  The step becomes a branch if no flag is found behind the parenthesis
at which its own is cut, and it gets another flag if one is found there. -/
theorem losesFlag_of_mark_and_parenthesis :
    LosesFlag "x".toList "a\")".toList ∧ LosesFlag "x".toList "a\") or not b".toList := by
  refine ⟨losesFlag_of (·.map Step.kind) (by decide) ?_, losesFlag_of (emit 0) (by decide) ?_⟩
  · decide +kernel
  · decide +kernel

/-! ### Names under a derived flag -/

/-- **A name is not taken for an assignment** to the flag that is derived from it: it does not begin
with that flag, and wherever a line of it stands in the body of the guard, it is the name of the
step that is read, if no line above it is and unless it is blank or a comment. -/
theorem guardedName?_derived (name : Text) :
    ¬ Flag.derived name <+: name ∧ assigns (Flag.derived name) name = false ∧
      ∀ (above : List Text) (line : Text) (below : List Text), trim line <:+: name →
        guardedName? (Flag.derived name) (above ++ line :: below) =
          (guardedName? (Flag.derived name) above).or
            (if isSkippable line then guardedName? (Flag.derived name) below
              else some (trim line)) := by
  refine ⟨Flag.not_isPrefix_derived (List.Sublist.refl name),
    assigns_derived (List.Sublist.refl name), fun above line below hline => ?_⟩
  rw [guardedName?_append]
  congr 1
  cases hskip : isSkippable line with
  | true => exact guardedName?_of_isSkippable hskip _ below
  | false => exact guardedName?_of_statement hskip (assigns_derived hline.sublist) below

/-- A name that begins like a derived flag and looks like an assignment to one. -/
def assigningName : Text := "run_once_step = True".toList

/-- Such a name in the body of its guard, below a comment and the assignment to its own flag. -/
theorem guardedName?_derived_assigningName :
    trim ("    ".toList ++ assigningName) <:+: assigningName ∧
      guardedName? (Flag.derived assigningName)
          (["    # once".toList, "    run_once_run_once_step_true = True".toList] ++
            ("    ".toList ++ assigningName) :: ["    other".toList]) = some assigningName := by
  have hline : trim ("    ".toList ++ assigningName) <:+: assigningName := by decide
  have hread := (guardedName?_derived assigningName).2.2
    ["    # once".toList, "    run_once_run_once_step_true = True".toList] _
    ["    other".toList] hline
  exact ⟨hline, hread.trans (by decide)⟩

end Script

end InterviewPlan
