import InterviewPlan.Proofs.Script.Literal

/-!
# The lines of a plan

The lines of steps are the same at every indentation, apart from the blanks in front.  A step has at
least one line; the first of them stands at the indentation of the step and holds a statement, and
none stands further to the left.  The lines of legible steps hold no line feed and end visibly.

## Main definitions

* `Script.snapshotBody`: the lines between the opening and the end of a snapshot
* `Script.headline`: the first line of a step, without its indentation
* `Script.ownLines`: the lines of a step without those of the steps below it

## Main results

* `Script.emit_add`: lines that are indented further
* `Script.emitStep_eq_cons`: the first line of a step
* `Script.forall_mem_emit`: what holds of the lines of each step holds of all lines
* `Script.isLine_emit`: the lines of legible steps are lines of their own
-/

namespace InterviewPlan

open Text

namespace Script

variable {n m : Nat} {s : Step} {ns : List Step} {l t : Text}

/-! ### Indentation -/

theorem pad_add (n m : Nat) : pad (n + m) = pad n ++ pad m :=
  List.replicate_add ..

theorem isBlank_of_mem_pad {c : Char} (h : c ∈ pad n) : isBlank c = true := by
  rw [List.eq_of_mem_replicate h]
  decide

theorem notMem_lineFeed_pad (n : Nat) : '\n' ∉ pad n := fun h =>
  absurd (List.eq_of_mem_replicate h) (by decide)

/-- Blanks in front of a line are part of its indentation, whatever else counts as one. -/
theorem indentWidth_pad_append {p : Char → Bool} (hp : p ' ' = true) (n : Nat) (t : Text) :
    indentWidth p (pad n ++ t) = n + indentWidth p t := by
  rw [indentWidth, List.takeWhile_append_of_pos, List.length_append, pad, List.length_replicate]
  · rfl
  · intro c hc
    rwa [List.eq_of_mem_replicate hc]

theorem indentWidth_eq_zero {p : Char → Bool} (hp : ∀ c, p c = true → isBlank c = true)
    (h : IsTrimmed t) : indentWidth p t = 0 := by
  obtain ⟨c, r, rfl, hc⟩ := exists_eq_cons_of_trim h.1 h.2
  rw [indentWidth, List.takeWhile_cons_of_neg, List.length_nil]
  intro hpc
  rw [hp c hpc] at hc
  cases hc

theorem indentOf_pad_append (n : Nat) (t : Text) : indentOf (pad n ++ t) = n + indentOf t :=
  indentWidth_pad_append (p := (· == ' ')) (by decide) n t

theorem le_indentOf_pad_append (n : Nat) (t : Text) : n ≤ indentOf (pad n ++ t) := by
  rw [indentOf_pad_append]
  exact Nat.le_add_right n _

theorem indentOf_eq_zero (h : IsTrimmed t) : indentOf t = 0 := by
  refine indentWidth_eq_zero ?_ h
  intro c hc
  rw [beq_iff_eq.mp hc]
  decide

theorem trim_pad_append (n : Nat) (t : Text) : trim (pad n ++ t) = trim t :=
  trim_blank_append (fun _ => isBlank_of_mem_pad) t

theorem isInline_placeholder : IsInline placeholder := by decide

theorem isInline_elseLine : IsInline elseLine := by decide

/-- A line that holds a statement at an indentation. -/
theorem isSkippable_pad_append (h : IsTrimmed t) (hcomment : isComment t = false) :
    isSkippable (pad n ++ t) = false := by
  have hne : t.isEmpty = false := by simpa using h.1
  rw [isSkippable, trim_pad_append, h.2]
  simp [hne, hcomment]

/-! ### Lines that are indented further -/

/-- The lines between the opening of a snapshot and its end. -/
def snapshotBody (indent : Nat) (args : Snapshot) : List Text :=
  (pad (indent + 2) ++ ("persistent=".toList ++ truth args.persistent ++ [','])) ::
    if args.data.isEmpty then [pad (indent + 2) ++ "data=\x7b\x7d,".toList]
    else (pad (indent + 2) ++ "data=\x7b".toList) ::
      args.entryTexts.map (pad (indent + 4) ++ ·) ++ [pad (indent + 2) ++ "\x7d,".toList]

theorem emitSnapshot_eq (n : Nat) (args : Snapshot) :
    emitSnapshot n args =
      (pad n ++ snapshotOpening) :: snapshotBody n args ++ [pad n ++ [')']] := by
  have hentries : (args.data.map fun x => pad (n + 2 * indentStep) ++ quote x.1 ++ ": ".toList
      ++ literal x.2 ++ [',']) = args.entryTexts.map (pad (n + 4) ++ ·) := by
    rw [Snapshot.entryTexts, List.map_map]
    apply List.map_congr_left
    intro x _
    simp [indentStep]
  rw [emitSnapshot, snapshotBody]
  dsimp only [indentStep] at hentries ⊢
  rw [hentries]
  split <;> simp

theorem snapshotBody_add (n m : Nat) (args : Snapshot) :
    snapshotBody (n + m) args = (snapshotBody m args).map (pad n ++ ·) := by
  have hpad : ∀ k, pad (n + m + k) = pad n ++ pad (m + k) := fun k => by
    rw [Nat.add_assoc, pad_add]
  unfold snapshotBody
  rw [List.map_cons, hpad, hpad]
  split <;> simp

theorem orPlaceholder_add (n m : Nat) (ls : List Text) :
    orPlaceholder (n + m) (ls.map (pad n ++ ·)) = (orPlaceholder m ls).map (pad n ++ ·) := by
  unfold orPlaceholder
  rw [List.isEmpty_map, pad_add]
  split <;> simp

theorem underElse_add (n m : Nat) (ls : List Text) :
    underElse (n + m) (ls.map (pad n ++ ·)) = (underElse m ls).map (pad n ++ ·) := by
  unfold underElse
  rw [List.isEmpty_map, pad_add]
  split <;> simp

/-- **Lines that are indented further** have more blanks in front and are the same otherwise. -/
theorem emit_add (n m : Nat) (ns : List Step) : emit (n + m) ns = (emit m ns).map (pad n ++ ·) := by
  induction ns using Step.listInduction generalizing m with
  | nil => rfl
  | cons s rest below ih =>
    rw [emit, emit, List.map_append, ih]
    congr 1
    -- the blocks below a step stand two further, which is why `m` is general
    have hpad : ∀ k, pad (n + m + k) = pad n ++ pad (m + k) := fun k => by
      rw [Nat.add_assoc, pad_add]
    cases s with
    | branch cond yes no =>
      have hyes := below yes (by simp) (m + 2)
      cases no with
      | none =>
        simp only [emitStep, indentStep, Nat.add_assoc n m 2, hyes, orPlaceholder_add, pad_add n m]
        simp
      | some no =>
        have hno := below no (by simp) (m + 2)
        simp only [emitStep, indentStep, Nat.add_assoc n m 2, hyes, hno, orPlaceholder_add,
          underElse_add, pad_add n m]
        simp
    | loop item iter body =>
      have hbody := below body (by simp) (m + 2)
      simp only [emitStep, indentStep, Nat.add_assoc n m 2, hbody, orPlaceholder_add, pad_add n m]
      simp
    | once name flag => simp [emitStep, emitOnce, indentStep, hpad, pad_add n m]
    | snapshot args =>
      simp only [emitStep, emitSnapshot_eq, snapshotBody_add, pad_add n m]
      simp
    | _ => simp [emitStep, pad_add n m]

/-! ### The first line of a step -/

/-- The first line of a step, without its indentation. -/
def headline : Step → Text
  | .ask var => var
  | .enter name => "nav.set_section(".toList ++ quote name ++ [')']
  | .progress value => "set_progress(".toList ++ float value.roundToInteger ++ [')']
  | .gather list => list ++ ".gather()".toList
  | .branch cond _ _ => "if ".toList ++ cond ++ [':']
  | .loop item iter _ => "for ".toList ++ item ++ " in ".toList ++ iter ++ [':']
  | .once name flag =>
    "if ".toList ++ Pattern.guardCondition (Step.effectiveFlag name flag) ++ [':']
  | .snapshot _ => snapshotOpening

theorem headline_loop (item iter : Text) (body : List Step) :
    headline (.loop item iter body) =
      "for ".toList ++ item ++ " in ".toList ++ iter ++ [':'] := rfl

theorem headline_once (name : Text) (flag : Option Text) :
    headline (.once name flag) =
      "if ".toList ++ Pattern.guardCondition (Step.effectiveFlag name flag) ++ [':'] := rfl

/-- The lines of an else-branch that may be absent. -/
def elseLines (indent : Nat) (no : Option (List Step)) : List Text :=
  match no with
  | none => []
  | some no => underElse indent (emit (indent + 2) no)

theorem elseLines_some_nil : elseLines n (some []) = [] := by
  rw [elseLines, emit]
  rfl

/-- An else-branch without steps has no lines, whether it is absent or empty. -/
theorem elseLines_of_getD {no : Option (List Step)} (h : no.getD [] = []) :
    elseLines n no = [] := by
  cases no with
  | none => rfl
  | some block =>
    rw [Option.getD_some] at h
    rw [h, elseLines_some_nil]

/-- The line that sets the flag of a step. -/
def flagLine (flag : Text) : Text := flag ++ " = ".toList ++ truth true

section Equations

variable (n : Nat)

/-- A text between two others behind an indentation is a line of its own behind it. -/
theorem append_between (p a t b : Text) : p ++ a ++ t ++ b = p ++ (a ++ t ++ b) := by
  simp only [List.append_assoc]

theorem emitStep_ask (var : Text) : emitStep n (.ask var) = [pad n ++ headline (.ask var)] :=
  rfl

theorem emitStep_enter (name : Text) :
    emitStep n (.enter name) = [pad n ++ headline (.enter name)] :=
  congrArg (fun line => [line]) (append_between (pad n) _ (quote name) _)

theorem emitStep_progress (value : Double) :
    emitStep n (.progress value) = [pad n ++ headline (.progress value)] :=
  congrArg (fun line => [line]) (append_between (pad n) _ (float value.roundToInteger) _)

theorem emitStep_gather (list : Text) :
    emitStep n (.gather list) = [pad n ++ headline (.gather list)] :=
  congrArg (fun line => [line]) (List.append_assoc (pad n) list _)

theorem emitStep_branch (cond : Text) (yes : List Step) (no : Option (List Step)) :
    emitStep n (.branch cond yes no) =
      (pad n ++ headline (.branch cond yes no)) ::
        (orPlaceholder (n + 2) (emit (n + 2) yes) ++ elseLines n no) := by
  rw [emitStep.eq_def]
  dsimp only [indentStep]
  rw [append_between]
  rfl

theorem emitStep_loop (item iter : Text) (body : List Step) :
    emitStep n (.loop item iter body) =
      (pad n ++ headline (.loop item iter body)) :: orPlaceholder (n + 2) (emit (n + 2) body) := by
  have hheader : pad n ++ "for ".toList ++ item ++ " in ".toList ++ iter ++ [':'] =
      pad n ++ ("for ".toList ++ item ++ " in ".toList ++ iter ++ [':']) := by
    simp only [List.append_assoc]
  rw [emitStep, hheader]
  rfl

theorem emitStep_once (name : Text) (flag : Option Text) :
    emitStep n (.once name flag) =
      [pad n ++ headline (.once name flag), pad (n + 2) ++ name,
        pad (n + 2) ++ flagLine (Step.effectiveFlag name flag)] := by
  generalize hf : Step.effectiveFlag name flag = f
  have hguard : pad n ++ "if not defined(".toList ++ quote f ++ ") or not ".toList ++ f ++ [':'] =
      pad n ++ ("if ".toList ++ Pattern.guardCondition f ++ [':']) := by
    rw [Pattern.guardCondition_eq,
      show "if not defined(".toList = "if ".toList ++ "not defined(".toList from rfl]
    simp only [List.append_assoc]
  rw [emitStep, headline_once, hf, emitOnce, hguard, flagLine]
  simp only [List.append_assoc, indentStep]

theorem emitStep_snapshot (args : Snapshot) :
    emitStep n (.snapshot args) =
      (pad n ++ headline (.snapshot args)) :: (snapshotBody n args ++ [pad n ++ [')']]) := by
  rw [emitStep, emitSnapshot_eq]
  rfl

/-- **A step begins with its first line** at its own indentation. -/
theorem emitStep_eq_cons (s : Step) : ∃ rest, emitStep n s = (pad n ++ headline s) :: rest := by
  cases s with
  | ask var => exact ⟨_, emitStep_ask n var⟩
  | enter name => exact ⟨_, emitStep_enter n name⟩
  | progress value => exact ⟨_, emitStep_progress n value⟩
  | gather list => exact ⟨_, emitStep_gather n list⟩
  | branch cond yes no => exact ⟨_, emitStep_branch n cond yes no⟩
  | loop item iter body => exact ⟨_, emitStep_loop n item iter body⟩
  | once name flag => exact ⟨_, emitStep_once n name flag⟩
  | snapshot args => exact ⟨_, emitStep_snapshot n args⟩

end Equations

/-- The first line of a readable step has no blank at either end. -/
theorem isTrimmed_headline (h : s.Readable) : IsTrimmed (headline s) := by
  cases s with
  | ask var => exact h.1.isTrimmed
  | enter name => exact isTrimmed_between (by decide) (by decide) (quote name)
  | progress value =>
    exact isTrimmed_between (by decide) (by decide) (float value.roundToInteger)
  | gather list =>
    have hhead : list.head?.any (!isBlank ·) = true := by
      obtain ⟨c, r, rfl, hc⟩ := exists_eq_cons_of_trim h.1.1 h.1.2.1
      simp [hc]
    have hline := isTrimmed_between hhead (q := ".gather()".toList) (by decide) []
    rwa [List.append_nil] at hline
  | branch cond yes no => exact isTrimmed_between (by decide) (by decide) cond
  | loop item iter body =>
    have hline := isTrimmed_between (p := "for ".toList) (q := [':']) (by decide) (by decide)
      (item ++ " in ".toList ++ iter)
    rw [headline_loop]
    simpa only [List.append_assoc] using hline
  | once name flag =>
    rw [headline_once]
    exact isTrimmed_between (by decide) (by decide) _
  | snapshot args =>
    have hline : IsTrimmed snapshotOpening := by decide
    exact hline

/-- The first line of a legible step has no line feed. -/
theorem notMem_lineFeed_headline (h : s.Legible) : '\n' ∉ headline s := by
  cases s with
  | ask var => exact h.readable.1.2.2
  | enter name =>
    have hname := notMem_lineFeed_quote h.keepsLines
    show '\n' ∉ "nav.set_section(".toList ++ quote name ++ [')']
    simpa using hname
  | progress value =>
    have hvalue := isPlain_float value.roundToInteger '\n' (by decide)
    show '\n' ∉ "set_progress(".toList ++ float value.roundToInteger ++ [')']
    simpa using hvalue
  | gather list =>
    show '\n' ∉ list ++ ".gather()".toList
    simpa using h.readable.1.2.2
  | branch cond yes no =>
    have hcond := (Pattern.clause?_eq_some h.readable).1.2
    show '\n' ∉ "if ".toList ++ cond ++ [':']
    simpa using hcond
  | loop item iter body =>
    rw [headline_loop]
    simpa using ⟨h.readable.notMem_lineFeed, h.readable.notMem_lineFeed_range⟩
  | once name flag =>
    obtain ⟨-, -, -, -, -, hflag⟩ := h.readable
    have hquote := notMem_lineFeed_quote hflag
    rw [headline_once]
    simpa [Pattern.guardCondition_eq] using ⟨hquote, hflag⟩
  | snapshot args =>
    have hline : '\n' ∉ snapshotOpening := by decide
    exact hline

/-- **The first line of a legible step** stands on a line. -/
theorem isInline_headline (h : s.Legible) : IsInline (headline s) :=
  ⟨(isTrimmed_headline h.readable).1, (isTrimmed_headline h.readable).2,
    notMem_lineFeed_headline h⟩

theorem isComment_headline (h : s.Readable) : isComment (headline s) = false := by
  cases s with
  | ask var => exact h.2.1
  | gather list =>
    obtain ⟨c, r, rfl⟩ := List.exists_cons_of_ne_nil h.1.1
    exact h.2
  | _ => rfl

/-- Only a step that asks for it is written like the placeholder or the header of an else-branch. -/
theorem eq_ask_of_headline {word : Text} (hword : word = placeholder ∨ word = elseLine)
    (h : headline s = word) : s = .ask word := by
  have hhead := congrArg List.head? h
  have hlast := congrArg List.getLast? h
  cases s with
  | ask var => exact congrArg Step.ask h
  | gather list =>
    have hgather : headline (.gather list) = list ++ ".gather(".toList ++ [')'] :=
      (List.append_assoc list ".gather(".toList [')']).symm
    rw [hgather, List.getLast?_concat] at hlast
    rcases hword with rfl | rfl <;> exact absurd (Option.some.inj hlast) (by decide)
  | _ => rcases hword with rfl | rfl <;> exact absurd (Option.some.inj hhead) (by decide)

/-! ### All lines -/

theorem mem_orPlaceholder {ls : List Text} (h : l ∈ orPlaceholder n ls) :
    l ∈ ls ∨ l = pad n ++ placeholder := by
  unfold orPlaceholder at h
  split at h
  · exact Or.inr (List.mem_singleton.mp h)
  · exact Or.inl h

theorem mem_elseLines {no : Option (List Step)} (h : l ∈ elseLines n no) :
    l = pad n ++ elseLine ∨ ∃ block, no = some block ∧ l ∈ emit (n + 2) block := by
  unfold elseLines at h
  split at h
  · cases h
  · next block =>
    unfold underElse at h
    split at h
    · cases h
    · rcases List.mem_cons.mp h with h | h
      · exact Or.inl h
      · exact Or.inr ⟨block, rfl, h⟩

/-- No line of steps stands further to the left than they do. -/
theorem le_indentOf_of_mem_emit (h : l ∈ emit n ns) : n ≤ indentOf l := by
  rw [← Nat.add_zero n, emit_add] at h
  obtain ⟨t, -, rfl⟩ := List.mem_map.mp h
  exact le_indentOf_pad_append n _

theorem le_indentOf_of_mem_orPlaceholder (h : l ∈ orPlaceholder n (emit n ns)) :
    n ≤ indentOf l := by
  rcases mem_orPlaceholder h with h | rfl
  · exact le_indentOf_of_mem_emit h
  · exact le_indentOf_pad_append n _

/-- The lines of a step itself, without those of the steps below it and without indentation. -/
def ownLines : Step → List Text
  | .once name flag =>
    [headline (.once name flag), name, flagLine (Step.effectiveFlag name flag)]
  | .snapshot args => headline (.snapshot args) :: (snapshotBody 0 args ++ [[')']])
  | s => [headline s]

theorem headline_mem_ownLines (s : Step) : headline s ∈ ownLines s := by
  cases s <;> exact List.mem_cons_self

/-- A line of a step is one of its own, a placeholder or the header of an else-branch, or it is a
line of a block below the step. -/
theorem mem_emitStep (h : l ∈ emitStep n s) :
    (∃ k t, l = pad k ++ t ∧ (t ∈ ownLines s ∨ t = placeholder ∨ t = elseLine)) ∨
      ∃ block ∈ s.blocks, l ∈ emit (n + 2) block := by
  have hown : ∀ k, ∀ t ∈ ownLines s, l = pad k ++ t →
      ∃ k t, l = pad k ++ t ∧ (t ∈ ownLines s ∨ t = placeholder ∨ t = elseLine) :=
    fun k t ht hl => ⟨k, t, hl, Or.inl ht⟩
  have hblock : ∀ block ∈ s.blocks, l ∈ orPlaceholder (n + 2) (emit (n + 2) block) →
      (∃ k t, l = pad k ++ t ∧ (t ∈ ownLines s ∨ t = placeholder ∨ t = elseLine)) ∨
        ∃ block ∈ s.blocks, l ∈ emit (n + 2) block := by
    intro block hb hl
    rcases mem_orPlaceholder hl with hl | rfl
    · exact Or.inr ⟨block, hb, hl⟩
    · exact Or.inl ⟨n + 2, placeholder, rfl, Or.inr (Or.inl rfl)⟩
  have hhead := hown n (headline s) (headline_mem_ownLines s)
  have hsingle : l ∈ [pad n ++ headline s] →
      (∃ k t, l = pad k ++ t ∧ (t ∈ ownLines s ∨ t = placeholder ∨ t = elseLine)) ∨
        ∃ block ∈ s.blocks, l ∈ emit (n + 2) block :=
    fun hl => Or.inl (hhead (List.mem_singleton.mp hl))
  cases s with
  | branch cond yes no =>
    rw [emitStep_branch] at h
    rcases List.mem_cons.mp h with h | h
    · exact Or.inl (hhead h)
    rcases List.mem_append.mp h with h | h
    · exact hblock yes (by simp) h
    · rcases mem_elseLines h with h | ⟨block, rfl, hmem⟩
      · exact Or.inl ⟨n, elseLine, h, Or.inr (Or.inr rfl)⟩
      · exact Or.inr ⟨block, by simp, hmem⟩
  | loop item iter body =>
    rw [emitStep_loop] at h
    rcases List.mem_cons.mp h with h | h
    · exact Or.inl (hhead h)
    · exact hblock body (by simp) h
  | once name flag =>
    rw [emitStep_once] at h
    rcases List.mem_cons.mp h with h | h
    · exact Or.inl (hhead h)
    rcases List.mem_cons.mp h with h | h
    · exact Or.inl (hown (n + 2) _ (by simp [ownLines]) h)
    · exact Or.inl (hown (n + 2) _ (by simp [ownLines]) (List.mem_singleton.mp h))
  | snapshot args =>
    rw [emitStep_snapshot, ← Nat.add_zero n, snapshotBody_add, Nat.add_zero] at h
    have hmap : l ∈ (ownLines (.snapshot args)).map (pad n ++ ·) := by simpa [ownLines] using h
    obtain ⟨t, ht, rfl⟩ := List.mem_map.mp hmap
    exact Or.inl (hown n t ht rfl)
  | ask var =>
    rw [emitStep_ask] at h
    exact hsingle h
  | enter name =>
    rw [emitStep_enter] at h
    exact hsingle h
  | progress value =>
    rw [emitStep_progress] at h
    exact hsingle h
  | gather list =>
    rw [emitStep_gather] at h
    exact hsingle h

/-- **What holds of the lines of each step itself** holds of all lines, if indentation does not
matter to it. -/
theorem forall_mem_emit {p : Text → Prop} (hpad : ∀ n t, p t → p (pad n ++ t))
    (hplaceholder : p placeholder) (helse : p elseLine)
    (h : Step.Throughout (fun s _ => ∀ t ∈ ownLines s, p t) ns) : ∀ l ∈ emit n ns, p l := by
  induction h generalizing n with
  | nil => exact nofun
  | @cons s rest hs below tail ihbelow ihtail =>
    intro l hl
    rw [emit] at hl
    rcases List.mem_append.mp hl with hl | hl
    · rcases mem_emitStep hl with ⟨k, t, rfl, ht | rfl | rfl⟩ | ⟨block, hb, hmem⟩
      · exact hpad k t (hs t ht)
      · exact hpad k _ hplaceholder
      · exact hpad k _ helse
      · exact ihbelow block hb l hmem
    · exact ihtail l hl

/-- The lines between the opening of a snapshot and its end that are the same for all data. -/
def bodyFrame (args : Snapshot) : List Text :=
  ["persistent=".toList ++ truth args.persistent ++ [','], "data=\x7b\x7d,".toList,
    "data=\x7b".toList, "\x7d,".toList]

theorem isInline_of_mem_bodyFrame {args : Snapshot} : ∀ t ∈ bodyFrame args, IsInline t := by
  unfold bodyFrame
  cases args.persistent <;> decide

/-- What the frame and each entry are given to have, all lines of a snapshot have once they are
indented. -/
theorem forall_mem_snapshotBody {p q : Text → Prop} {args : Snapshot}
    (hpad : ∀ k t, n < k → q t → p (pad k ++ t)) (hframe : ∀ t ∈ bodyFrame args, q t)
    (hentries : ∀ entry ∈ args.entryTexts, q entry) : ∀ l ∈ snapshotBody n args, p l := by
  simp only [bodyFrame, List.forall_mem_cons] at hframe
  obtain ⟨hpersistent, hempty, hopen, hclose, -⟩ := hframe
  have hinner : n < n + 2 := Nat.lt_add_of_pos_right (by decide)
  intro l hl
  unfold snapshotBody at hl
  rcases List.mem_cons.mp hl with rfl | hl
  · exact hpad _ _ hinner hpersistent
  split at hl
  · rw [List.mem_singleton.mp hl]
    exact hpad _ _ hinner hempty
  · rcases List.mem_cons.mp hl with rfl | hl
    · exact hpad _ _ hinner hopen
    rcases List.mem_append.mp hl with hl | hl
    · obtain ⟨entry, hentry, rfl⟩ := List.mem_map.mp hl
      exact hpad _ _ (Nat.lt_add_of_pos_right (by decide)) (hentries entry hentry)
    · rw [List.mem_singleton.mp hl]
      exact hpad _ _ hinner hclose

/-- The lines of a snapshot stand further to the right than the call. -/
theorem lt_indentOf_of_mem_snapshotBody {args : Snapshot} (h : l ∈ snapshotBody n args) :
    n < indentOf l := by
  refine forall_mem_snapshotBody (p := (n < indentOf ·)) (q := fun _ => True) ?_
    (fun _ _ => trivial) (fun _ _ => trivial) l h
  exact fun k t hk _ => hk.trans_le (le_indentOf_pad_append k t)

/-- A line of its own: it ends visibly and has no line feed. -/
def IsLine (l : Text) : Prop := EndsVisibly l ∧ '\n' ∉ l

theorem IsLine.pad (h : IsLine l) (n : Nat) : IsLine (pad n ++ l) := by
  refine ⟨h.1.append_left _, ?_⟩
  rw [List.mem_append, not_or]
  exact ⟨notMem_lineFeed_pad n, h.2⟩

theorem isLine_of_isInline (h : IsInline t) : IsLine t := ⟨h.endsVisibly, h.2.2⟩

theorem isLine_concat {c : Char} (hc : isBlank c = false) (ht : '\n' ∉ t) : IsLine (t ++ [c]) := by
  refine ⟨endsVisibly_concat t hc, ?_⟩
  rw [List.mem_append, not_or, List.mem_singleton]
  refine ⟨ht, ?_⟩
  rintro rfl
  exact absurd hc (by decide)

theorem isLine_flagLine {flag : Text} (h : '\n' ∉ flag) : IsLine (flagLine flag) := by
  have heq : flag ++ " = Tru".toList ++ ['e'] = flagLine flag :=
    (List.append_assoc flag " = Tru".toList ['e']).trans
      (List.append_assoc flag " = ".toList (truth true)).symm
  rw [← heq]
  exact isLine_concat (by decide) (by simpa using h)

theorem isLine_snapshotBody {args : Snapshot} (h : ∀ entry ∈ args.entryTexts, '\n' ∉ entry) :
    ∀ l ∈ snapshotBody n args, IsLine l := by
  refine forall_mem_snapshotBody (q := IsLine) (fun k _ _ ht => ht.pad k) ?_ ?_
  · intro t ht
    exact isLine_of_isInline (isInline_of_mem_bodyFrame t ht)
  · intro entry hentry
    have hfeed := h entry hentry
    obtain ⟨⟨key, value⟩, -, rfl⟩ := List.mem_map.mp hentry
    refine isLine_concat (by decide) ?_
    intro hm
    exact hfeed (List.mem_append_left _ hm)

/-- The own lines of a step are lines of their own if its first line is one and its other texts have
no line feed. -/
theorem isLine_ownLines_of (hhead : IsLine (headline s))
    (honce : ∀ name flag, s = .once name flag →
      IsInline name ∧ '\n' ∉ Step.effectiveFlag name flag)
    (hsnapshot : ∀ args, s = .snapshot args → ∀ entry ∈ args.entryTexts, '\n' ∉ entry) :
    ∀ t ∈ ownLines s, IsLine t := by
  cases s with
  | once name flag =>
    obtain ⟨hname, hflag⟩ := honce name flag rfl
    intro t ht
    rcases List.mem_cons.mp ht with rfl | ht
    · exact hhead
    rcases List.mem_cons.mp ht with rfl | ht
    · exact isLine_of_isInline hname
    · rw [List.mem_singleton.mp ht]
      exact isLine_flagLine hflag
  | snapshot args =>
    intro t ht
    rcases List.mem_cons.mp ht with rfl | ht
    · exact hhead
    rcases List.mem_append.mp ht with ht | ht
    · exact isLine_snapshotBody (hsnapshot args rfl) t ht
    · rw [List.mem_singleton.mp ht]
      exact isLine_of_isInline (by decide)
  | _ => exact List.forall_mem_singleton.mpr hhead

theorem isLine_ownLines (h : s.Legible) : ∀ t ∈ ownLines s, IsLine t := by
  refine isLine_ownLines_of (isLine_of_isInline (isInline_headline h)) ?_ ?_
  · rintro name flag rfl
    exact ⟨h.readable.1, h.readable.2.2.2.2.2⟩
  · rintro args rfl
    exact h.keepsLines

/-- **The lines of legible steps** are lines of their own. -/
theorem isLine_emit (h : Step.Throughout (fun s _ => s.Legible) ns) (hl : l ∈ emit n ns) :
    IsLine l := by
  have hown : Step.Throughout (fun s _ => ∀ t ∈ ownLines s, IsLine t) ns :=
    h.mono fun _ _ => isLine_ownLines
  exact forall_mem_emit (fun n _ ht => ht.pad n) (isLine_of_isInline isInline_placeholder)
    (isLine_of_isInline isInline_elseLine) hown l hl

end Script

end InterviewPlan
