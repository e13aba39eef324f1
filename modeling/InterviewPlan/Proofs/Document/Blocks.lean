import InterviewPlan.Proofs.Document.Separators
import InterviewPlan.Proofs.Script.CleanBlock

/-!
# Blocks as segments

The block of a clean plan stands as a segment.  Most of its lines carry a mark or are no separators
because the plan says so.  What is quoted may go over several lines, the name of a section and the
data of a snapshot: then the lines between its first and its last one stand in the block as they
are, and none of them may be a separator.

## Main definitions

* `Step.IsUnbroken`, `Plan.IsUnbroken`: steps and plans that are written without separator lines

## Main results

* `Script.isPieceLine_entryTexts`: the data of a snapshot separate nothing
* `Script.isPiece_compile`: the block of a clean plan stands as a segment
-/

namespace InterviewPlan

open Text Script Document

namespace Script

variable {t : Text}

/-! ### What is written for a value -/

theorem escaped_append (s t : Text) : escaped (s ++ t) = escaped s ++ escaped t :=
  List.flatMap_append

theorem subset_escaped (t : Text) : t ⊆ escaped t := by
  intro c hc
  refine List.mem_flatMap.mpr ⟨c, hc, ?_⟩
  split <;> simp

/-- Escaping makes no separator. -/
theorem isSeparator_escaped (h : isSeparator t = false) : isSeparator (escaped t) = false := by
  by_cases hmark : '"' ∈ t ∨ '\\' ∈ t
  · rcases hmark with hc | hc
    · exact isSeparator_of_isMarked ⟨'"', subset_escaped t hc, by decide⟩
    · exact isSeparator_of_isMarked ⟨'\\', subset_escaped t hc, by decide⟩
  · rw [not_or] at hmark
    rwa [escaped_eq_self hmark.1 hmark.2]

theorem notMem_lineFeed_escaped (h : '\n' ∉ t) : '\n' ∉ escaped t := fun hm =>
  (mem_escaped hm).elim (by decide) h

theorem isUnbrokenAbove_escaped (h : IsUnbrokenAbove t) : IsUnbrokenAbove (escaped t) := by
  induction t using lineInduction with
  | last l hl => exact isUnbrokenAbove_of_notMem (notMem_lineFeed_escaped hl)
  | cons l r hl ih =>
    rw [isUnbrokenAbove_cons hl] at h
    have hsplit : escaped (l ++ '\n' :: r) = escaped l ++ '\n' :: escaped r := by
      rw [escaped_append, escaped_cons]
      rfl
    rw [hsplit, isUnbrokenAbove_cons (notMem_lineFeed_escaped hl)]
    exact ⟨isSeparator_escaped h.1, ih h.2⟩

/-- **A quoted text separates nothing** if it has no separator inside. -/
theorem attaches_quote (h : IsUnbrokenInside t) : Attaches (quote t) := by
  induction t using lineInduction with
  | last l hl => exact .inline (notMem_lineFeed_quote hl)
  | cons l r hl _ =>
    rw [isUnbrokenInside_cons hl] at h
    have hquote : quote (l ++ '\n' :: r) = ('"' :: escaped l) ++ '\n' :: (escaped r ++ ['"']) := by
      rw [quote_eq, escaped_append, escaped_cons, List.append_assoc]
      rfl
    rw [hquote]
    refine .lines ?_ ⟨'"', List.mem_cons_self, by decide⟩ ?_
    · simpa using notMem_lineFeed_escaped hl
    · exact (isUnbrokenAbove_escaped h).append (.inline (by simp))

/-- A text that is an expression begins with a mark. -/
theorem attaches_of_isExpression (hexpression : isExpression t = true) (h : IsUnbrokenInside t) :
    Attaches t := by
  induction t using lineInduction with
  | last l hl => exact .inline hl
  | cons l r hl _ =>
    refine .lines hl ?_ ((isUnbrokenInside_cons hl r).mp h)
    obtain ⟨lead, hlead, hbegin⟩ := List.any_eq_true.mp hexpression
    have hmarked : lead.head?.any (fun c => !isBlank c && c ≠ '-') = true := by
      have hall : ∀ s ∈ expressionLeads, s.head?.any (fun c => !isBlank c && c ≠ '-') = true := by
        decide
      exact hall lead hlead
    obtain ⟨c, hc, hmark⟩ := (Option.any_eq_true _ _).mp hmarked
    obtain ⟨more, rfl⟩ := List.head?_eq_some_iff.mp hc
    have hlead' := List.isPrefixOf_iff_prefix.mp hbegin
    cases l with
    | nil =>
      obtain ⟨rfl, -⟩ := List.cons_prefix_cons.mp hlead'
      exact absurd hmark (by decide)
    | cons a l =>
      obtain ⟨rfl, -⟩ := List.cons_prefix_cons.mp hlead'
      exact ⟨c, List.mem_cons_self, by simpa using hmark⟩

theorem isAdditive_attaches : IsAdditive Attaches where
  append := Attaches.append
  plain h := .inline (h '\n' (by decide))

end Script

/-! ### Plans that are written without separators -/

/-- A step whose own lines are no separators: a value or a step that is named like one would be, and
so would a line inside of what is quoted. -/
def Step.IsUnbroken : Step → Prop
  | .ask var => isSeparator var = false
  | .once name _ => isSeparator name = false
  | .enter name => IsUnbrokenInside name
  | .snapshot args => ∀ t ∈ args.texts, IsUnbrokenInside t
  | _ => True

instance : ∀ s : Step, Decidable s.IsUnbroken
  | .ask var => inferInstanceAs (Decidable (isSeparator var = false))
  | .once name _ => inferInstanceAs (Decidable (isSeparator name = false))
  | .enter name => inferInstanceAs (Decidable (IsUnbrokenInside name))
  | .snapshot args => inferInstanceAs (Decidable (∀ t ∈ args.texts, IsUnbrokenInside t))
  | .progress _ | .gather _ | .branch .. | .loop .. => .isTrue trivial

/-- A plan that is written without separators, at every depth. -/
def Plan.IsUnbroken (plan : Plan) : Prop := Step.Throughout (fun s _ => s.IsUnbroken) plan.steps

instance (plan : Plan) : Decidable plan.IsUnbroken :=
  inferInstanceAs (Decidable (Step.Throughout (fun s _ => s.IsUnbroken) plan.steps))

namespace Script

variable {plan : Plan} {s : Step} {t u : Text} {c : Char}

/-- A line that is part of a piece: it ends visibly and has no separator. -/
def IsPieceLine (t : Text) : Prop := EndsVisibly t ∧ Document.IsUnbroken t

theorem IsPieceLine.pad (h : IsPieceLine t) (n : Nat) : IsPieceLine (pad n ++ t) := by
  exact ⟨h.1.append_left _, h.2.indent (fun _ => isBlank_of_mem_pad) (notMem_lineFeed_pad n)⟩

theorem isPieceLine_of_isInline (h : IsInline t) (hs : isSeparator t = false) : IsPieceLine t :=
  ⟨h.endsVisibly, isUnbroken_of_notMem h.2.2 hs⟩

/-- What attaches is part of a piece in front of a mark. -/
theorem isPieceLine_concat (h : Attaches t) (hvisible : isBlank c = false) (hhyphen : c ≠ '-') :
    IsPieceLine (t ++ [c]) := by
  refine ⟨endsVisibly_concat t hvisible, h.isUnbrokenAbove.isUnbroken_append ?_ ?_⟩
  · rw [List.mem_singleton]
    rintro rfl
    exact absurd hvisible (by decide)
  · exact ⟨c, List.mem_cons_self, hvisible, hhyphen⟩

/-- An entry ends in a comma, and what stands in front of it separates nothing. -/
theorem isPieceLine_entryTexts {args : Snapshot} (h : ∀ t ∈ args.texts, IsUnbrokenInside t) :
    ∀ entry ∈ args.entryTexts, IsPieceLine entry := by
  have hstrings : args.strings ⊆ args.texts := Json.memberStrings_subset_memberTexts args.data
  have hdata := isAdditive_attaches.data (fun t ht => attaches_quote (h t ht))
    fun t ht hexpression => attaches_of_isExpression hexpression (h t (hstrings ht))
  intro entry hentry
  obtain ⟨x, hx, rfl⟩ := List.mem_map.mp hentry
  exact isPieceLine_concat (hdata x hx) (by decide) (by decide)

theorem isPieceLine_snapshotBody {args : Snapshot} (h : ∀ t ∈ args.texts, IsUnbrokenInside t) :
    ∀ l ∈ snapshotBody 0 args, IsPieceLine l := by
  have hframe : ∀ t ∈ bodyFrame args, isSeparator t = false := by
    unfold bodyFrame
    cases args.persistent <;> decide
  refine forall_mem_snapshotBody (q := IsPieceLine) (fun k _ _ ht => ht.pad k) ?_
    (isPieceLine_entryTexts h)
  intro t ht
  exact isPieceLine_of_isInline (isInline_of_mem_bodyFrame t ht) (hframe t ht)

/-- The lines of a clean step are part of a piece. -/
theorem isPieceLine_ownLines (hclean : s.Clean) (hunbroken : s.IsUnbroken) :
    ∀ t ∈ ownLines s, IsPieceLine t := by
  cases s with
  | ask var =>
    exact List.forall_mem_singleton.mpr (isPieceLine_of_isInline hclean.1 hunbroken)
  | enter name =>
    refine List.forall_mem_singleton.mpr (isPieceLine_concat ?_ (by decide) (by decide))
    exact Attaches.append (.inline (by decide)) (attaches_quote hunbroken)
  | progress value =>
    refine List.forall_mem_singleton.mpr (isPieceLine_concat (.inline ?_) (by decide) (by decide))
    simpa using isPlain_float value.roundToInteger '\n' (by decide)
  | gather list =>
    refine List.forall_mem_singleton.mpr ?_
    have hgather : headline (.gather list) = (list ++ ".gather(".toList) ++ [')'] :=
      (List.append_assoc list ".gather(".toList [')']).symm
    rw [hgather]
    refine isPieceLine_concat (.inline ?_) (by decide) (by decide)
    simpa using hclean.1.2.2
  | branch cond yes no =>
    refine List.forall_mem_singleton.mpr (isPieceLine_concat (.inline ?_) (by decide) (by decide))
    simpa using hclean.1.2.2
  | loop item iter body =>
    refine List.forall_mem_singleton.mpr (isPieceLine_concat (.inline ?_) (by decide) (by decide))
    simpa using ⟨hclean.1.2.2, hclean.2.1.2.2⟩
  | once name flag =>
    have hflag : '\n' ∉ Step.effectiveFlag name flag := (Step.isInline_effectiveFlag hclean.2).2.2
    have hquote := notMem_lineFeed_quote hflag
    have hhead : IsPieceLine (headline (.once name flag)) := by
      rw [headline_once]
      refine isPieceLine_concat (.inline ?_) (by decide) (by decide)
      simpa [Pattern.guardCondition_eq] using ⟨hquote, hflag⟩
    have hset : IsPieceLine (flagLine (Step.effectiveFlag name flag)) := by
      obtain ⟨hvisible, hfeed⟩ := isLine_flagLine hflag
      refine ⟨hvisible, isUnbroken_of_notMem hfeed (isSeparator_of_isMarked ⟨'=', ?_, by decide⟩)⟩
      simp [flagLine]
    refine List.forall_mem_cons.mpr ⟨hhead, List.forall_mem_cons.mpr ⟨?_, ?_⟩⟩
    · exact isPieceLine_of_isInline hclean.1 hunbroken
    · exact List.forall_mem_singleton.mpr hset
  | snapshot args =>
    have hopening : IsPieceLine snapshotOpening := isPieceLine_of_isInline (by decide) (by decide)
    have hclosing : IsPieceLine [')'] := isPieceLine_of_isInline (by decide) (by decide)
    refine List.forall_mem_cons.mpr ⟨hopening, List.forall_mem_append.mpr ⟨?_, ?_⟩⟩
    · exact isPieceLine_snapshotBody hunbroken
    · exact List.forall_mem_singleton.mpr hclosing

/-- The lines of the block of a clean plan are part of a piece. -/
theorem isPieceLine_blockLines (hclean : plan.IsClean) (hunbroken : plan.IsUnbroken) :
    ∀ l ∈ blockLines plan, IsPieceLine l := by
  have hbanner : IsPieceLine banner := isPieceLine_of_isInline (by decide) (by decide)
  have hheader : IsPieceLine codeHeader := isPieceLine_of_isInline (by decide) (by decide)
  have hplaceholder : IsPieceLine placeholder :=
    isPieceLine_of_isInline isInline_placeholder (by decide)
  have helse : IsPieceLine elseLine := isPieceLine_of_isInline isInline_elseLine (by decide)
  have hid : IsPieceLine ("id: ".toList ++ plan.id) := by
    refine ⟨hclean.id.endsVisibly.append_left _, isUnbroken_of_notMem ?_ ?_⟩
    · simpa using hclean.id.2.2
    · exact isSeparator_of_isMarked ⟨'i', by simp, by decide⟩
  have hmandatory : IsPieceLine ("mandatory: ".toList ++ truth plan.mandatory) := by
    cases plan.mandatory <;> exact isPieceLine_of_isInline (by decide) (by decide)
  have hown : Step.Throughout (fun s _ => ∀ t ∈ ownLines s, IsPieceLine t) plan.steps :=
    (hclean.steps.and hunbroken).mono fun _ _ hs => isPieceLine_ownLines hs.1 hs.2
  have hsteps : ∀ l ∈ emit 0 plan.steps, IsPieceLine l :=
    forall_mem_emit (fun n _ ht => ht.pad n) hplaceholder helse hown
  rw [blockLines_eq]
  refine List.forall_mem_cons.mpr ⟨hbanner, List.forall_mem_cons.mpr ⟨hid, ?_⟩⟩
  refine List.forall_mem_cons.mpr ⟨hmandatory, List.forall_mem_cons.mpr ⟨hheader, fun l hl => ?_⟩⟩
  obtain ⟨t, ht, rfl⟩ := List.mem_map.mp hl
  rcases mem_orPlaceholder ht with ht | rfl
  · exact (hsteps t ht).pad 2
  · exact (hplaceholder.pad 0).pad 2

/-- **The block of a clean plan stands as a segment**, if it is written without separators. -/
theorem isPiece_compile (hclean : plan.IsClean) (hunbroken : plan.IsUnbroken) :
    IsPiece (compile plan) := by
  have hlines := isPieceLine_blockLines hclean hunbroken
  have hne : blockLines plan ≠ [] := by
    rw [blockLines_eq]
    exact List.cons_ne_nil _ _
  have hhead : (compile plan).head? = some '#' := by
    rw [compile, blockLines_eq, unlines_cons _ (List.cons_ne_nil _ _)]
    rfl
  obtain ⟨u, c, hlast, hc⟩ := endsVisibly_unlines hne fun l hl => (hlines l hl).1
  have hlast' : compile plan = u ++ [c] := hlast
  constructor
  · rw [hlast']
    exact List.append_ne_nil_of_right_ne_nil u (List.cons_ne_nil c [])
  · rw [trim_eq_self_iff, hhead, hlast', List.getLast?_concat]
    constructor
    · rintro a ⟨⟩
      decide
    · rintro a ⟨⟩
      exact hc
  · exact isUnbroken_unlines hne fun l hl => (hlines l hl).2

end Script

end InterviewPlan
