import Mathlib.Data.List.ReduceOption
import Mathlib.Data.List.Nodup
import InterviewPlan.Document.Issue
import InterviewPlan.Proofs.Number.Numeral
import InterviewPlan.Proofs.Text.Trim

/-!
# Validation and analysis

Checking a document goes on past a segment that cannot be read, analysing it stops there.  Both look
at the same segments: an issue stands for each segment that fails and for each mandatory order block
after another one, and the first issue without a block is the error of the analysis.

## Main definitions

* `Document.isMandatoryOrder`: a segment that is analysed as a mandatory order block
* `Document.issue?`: the issue of a segment, given the segments before it

## Main results

* `Document.analyze_eq_ok_iff`, `Document.analyze_eq_error_iff`: the two outcomes of an analysis
* `Document.blockId_injective`: the identifier of a block tells its position
* `Document.validate_agrees_with_analyze`: the two agree on every document
-/

namespace InterviewPlan

namespace Document

variable {read : YamlReader} {document : Text} {blocks : List Block} {e : Unreadable}

/-! ### The outcome of an analysis -/

section Outcome

variable {α β ε : Type} {f : α → Except ε β}

/-- A list is mapped without an error if every element is. -/
theorem mapM_eq_ok_iff {l : List α} {r : List β} : l.mapM f = .ok r ↔ l.map f = r.map .ok := by
  induction l generalizing r with
  | nil => cases r <;> simp [pure, Except.pure]
  | cons a l ih =>
    rw [List.mapM_cons, List.map_cons]
    cases ha : f a with
    | error x => cases r <;> simp [bind, Except.bind]
    | ok b =>
      cases hl : l.mapM f with
      | error x =>
        have hne : ∀ bs : List β, l.map f ≠ bs.map .ok := fun bs hbs => by
          rw [← ih, hl] at hbs
          cases hbs
        cases r with
        | nil => simp [bind, Except.bind]
        | cons b' bs => simp [bind, Except.bind, hne bs]
      | ok bs =>
        have hbs := ih.mp hl
        cases r with
        | nil => simp [bind, Except.bind, pure, Except.pure]
        | cons b' bs' =>
          have hinj : bs.map Except.ok = bs'.map (Except.ok : β → Except ε β) ↔ bs = bs' :=
            (List.map_injective_iff.mpr fun _ _ => Except.ok.inj).eq_iff
          simp [bind, Except.bind, pure, Except.pure, hbs, hinj]

/-- The error is that of the first element that has one. -/
theorem mapM_eq_error_iff {l : List α} {x : ε} :
    l.mapM f = .error x ↔
      ∃ before a after, l = before ++ a :: after ∧ (∀ b ∈ before, ∃ y, f b = .ok y) ∧
        f a = .error x := by
  induction l with
  | nil => simp [pure, Except.pure]
  | cons a l ih =>
    rw [List.mapM_cons]
    constructor
    · intro h
      cases ha : f a with
      | error y =>
        obtain rfl : y = x := by simpa [ha, bind, Except.bind] using h
        exact ⟨[], a, l, rfl, by simp, ha⟩
      | ok b =>
        have hl : l.mapM f = .error x := by
          cases hl : l.mapM f with
          | error y => simpa [ha, hl, bind, Except.bind] using h
          | ok bs => simp [ha, hl, bind, Except.bind, pure, Except.pure] at h
        obtain ⟨before, c, after, rfl, hbefore, hc⟩ := ih.mp hl
        refine ⟨a :: before, c, after, rfl, ?_, hc⟩
        intro d hd
        rcases List.mem_cons.mp hd with rfl | hd
        · exact ⟨b, ha⟩
        · exact hbefore d hd
    · rintro ⟨before, c, after, hl, hbefore, hc⟩
      cases before with
      | nil =>
        obtain ⟨rfl, rfl⟩ := List.cons.inj hl
        simp [hc, bind, Except.bind]
      | cons d before =>
        obtain ⟨rfl, rfl⟩ := List.cons.inj hl
        obtain ⟨y, hy⟩ := hbefore a List.mem_cons_self
        have hbefore' : ∀ b ∈ before, ∃ y, f b = .ok y := fun b hb =>
          hbefore b (List.mem_cons_of_mem a hb)
        have hrest := ih.mpr ⟨before, c, after, rfl, hbefore', hc⟩
        rw [List.append_eq] at hrest ⊢
        rw [hy, hrest]
        rfl

/-- Elements that are mapped without an error have values. -/
theorem exists_map_eq_map_ok {l : List α} (h : ∀ a ∈ l, ∃ b, f a = .ok b) :
    ∃ r : List β, l.map f = r.map .ok := by
  induction l with
  | nil => exact ⟨[], rfl⟩
  | cons a l ih =>
    obtain ⟨ha, hl⟩ := List.forall_mem_cons.mp h
    obtain ⟨b, hb⟩ := ha
    obtain ⟨r, hr⟩ := ih hl
    exact ⟨b :: r, by rw [List.map_cons, List.map_cons, hb, hr]⟩

end Outcome

/-- An analysis succeeds with the blocks of all segments. -/
theorem analyze_eq_ok_iff :
    analyze read document = .ok blocks ↔
      (segments document).map (analyzeSegment read) = blocks.map .ok :=
  mapM_eq_ok_iff

/-- An analysis fails with the error of the first segment that cannot be read. -/
theorem analyze_eq_error_iff :
    analyze read document = .error e ↔
      ∃ before s after, segments document = before ++ s :: after ∧
        (∀ b ∈ before, ∃ block, analyzeSegment read b = .ok block) ∧
          analyzeSegment read s = .error e :=
  mapM_eq_error_iff

/-- An analysis succeeds exactly when no segment fails. -/
theorem exists_analyze_eq_ok_iff :
    (∃ blocks, analyze read document = .ok blocks) ↔
      ∀ s ∈ segments document, ∃ block, analyzeSegment read s = .ok block := by
  constructor
  · rintro ⟨blocks, h⟩ s hs
    have hmem := List.mem_map_of_mem (f := analyzeSegment read) hs
    rw [analyze_eq_ok_iff.mp h] at hmem
    obtain ⟨block, -, hblock⟩ := List.mem_map.mp hmem
    exact ⟨block, hblock.symm⟩
  · intro h
    cases ha : analyze read document with
    | ok blocks => exact ⟨blocks, rfl⟩
    | error e =>
      obtain ⟨before, s, after, hsplit, -, hs⟩ := analyze_eq_error_iff.mp ha
      obtain ⟨block, hblock⟩ := h s (by rw [hsplit]; simp)
      rw [hs] at hblock
      cases hblock

/-- The error of a segment names its place. -/
theorem span_of_analyzeSegment_eq_error {s : Segment} (h : analyzeSegment read s = .error e) :
    e.span = s.span := by
  unfold analyzeSegment at h
  split at h
  · cases h
  · cases h
    rfl

/-- A block has the place of its segment, and an identifier that ends in its position. -/
theorem id_span_of_analyzeSegment_eq_ok {s : Segment} {block : Block}
    (h : analyzeSegment read s = .ok block) :
    block.span = s.span ∧ ∃ type, block.id = blockId type s.position := by
  unfold analyzeSegment at h
  split at h
  · cases h
    exact ⟨rfl, _, rfl⟩
  · cases h

/-! ### Issues -/

variable (read) in
/-- Whether a segment is analysed as a mandatory order block. -/
def isMandatoryOrder (s : Segment) : Bool :=
  match analyzeSegment read s with
  | .ok block => block.isOrder && block.isMandatory
  | .error _ => false

variable (read) in
/-- The issue of a segment, given the segments before it: it cannot be read, or it is a mandatory
order block and so is one before it. -/
def issue? (earlier : List Segment) (s : Segment) : Option Issue :=
  match analyzeSegment read s with
  | .error e => some ⟨none, .error, e.message, some s.span⟩
  | .ok block =>
    if isMandatoryOrder read s && earlier.any (isMandatoryOrder read) then
      some ⟨some block.id, .error, secondMandatory, some s.span⟩
    else none

/-- One step of the check: the issue of a segment, and what it adds to the flag. -/
theorem issuesOf_cons (earlier : List Segment) (s : Segment)
    (rest : List (Except Unreadable Block)) :
    issuesOf (earlier.any (isMandatoryOrder read)) (analyzeSegment read s :: rest) =
      (issue? read earlier s).toList
        ++ issuesOf ((earlier ++ [s]).any (isMandatoryOrder read)) rest := by
  have hany : (earlier ++ [s]).any (isMandatoryOrder read) =
      (earlier.any (isMandatoryOrder read) || isMandatoryOrder read s) := by simp
  rw [hany]
  cases hs : analyzeSegment read s with
  | error e =>
    have hspan := span_of_analyzeSegment_eq_error hs
    simp [issuesOf, issue?, isMandatoryOrder, hs, Unreadable.issue, Issue.error, hspan]
  | ok block =>
    have hspan := (id_span_of_analyzeSegment_eq_ok hs).1
    have horder : isMandatoryOrder read s = (block.isOrder && block.isMandatory) := by
      simp [isMandatoryOrder, hs]
    simp only [issuesOf, issue?, hs]
    rw [← horder]
    cases isMandatoryOrder read s <;> cases earlier.any (isMandatoryOrder read) <;>
      simp [repeatedMandatory, Issue.error, hspan]

/-- The check of all segments after some others. -/
theorem issuesOf_map (earlier segs : List Segment) :
    issuesOf (earlier.any (isMandatoryOrder read)) (segs.map (analyzeSegment read)) =
      (segs.mapIdx fun i s => issue? read (earlier ++ segs.take i) s).reduceOption := by
  induction segs generalizing earlier with
  | nil => rfl
  | cons s rest ih =>
    rw [List.map_cons, issuesOf_cons, ih, List.mapIdx_cons]
    have hrest : (rest.mapIdx fun i x => issue? read (earlier ++ [s] ++ rest.take i) x) =
        rest.mapIdx fun i x => issue? read (earlier ++ (s :: rest).take (i + 1)) x := by
      simp
    rw [hrest]
    cases h : issue? read earlier s <;> simp [h]

variable (read) in
/-- **The issues of a document** are those of its segments, in order. -/
theorem validate_eq_mapIdx (document : Text) :
    validate read document =
      ((segments document).mapIdx fun i s =>
        issue? read ((segments document).take i) s).reduceOption := by
  have h := @issuesOf_map read [] (segments document)
  simpa [validate] using h

/-- Where all segments can be read, an issue names a block. -/
theorem exists_of_mem_issuesOf {seen : Bool} {issue : Issue}
    (h : issue ∈ issuesOf seen (blocks.map .ok)) :
    ∃ block ∈ blocks, issue.blockId = some block.id := by
  induction blocks generalizing seen with
  | nil => cases h
  | cons block rest ih =>
    have hrest : ∀ seen, issue ∈ issuesOf seen (rest.map .ok) →
        ∃ b ∈ block :: rest, issue.blockId = some b.id := by
      intro seen h
      obtain ⟨b, hb, hid⟩ := ih h
      exact ⟨b, List.mem_cons_of_mem block hb, hid⟩
    rw [List.map_cons, issuesOf] at h
    split at h
    · rcases List.mem_append.mp h with h | h
      · split at h
        · rw [List.mem_singleton.mp h]
          exact ⟨block, List.mem_cons_self, rfl⟩
        · cases h
      · exact hrest true h
    · exact hrest seen h

variable (blocks e) in
/-- Issues of segments that can be read come first, and then the issue of the one that cannot. -/
theorem issuesOf_append_error (seen : Bool) (rest : List (Except Unreadable Block)) :
    ∃ seen', issuesOf seen (blocks.map .ok ++ .error e :: rest) =
      issuesOf seen (blocks.map .ok) ++ e.issue :: issuesOf seen' rest := by
  induction blocks generalizing seen with
  | nil => exact ⟨seen, rfl⟩
  | cons block more ih =>
    simp only [List.map_cons, List.cons_append, issuesOf]
    split
    · obtain ⟨seen', h⟩ := ih true
      exact ⟨seen', by rw [h, List.append_assoc]⟩
    · exact ih seen

/-- The error of an analysis is the first issue that names no block. -/
theorem find?_validate (h : analyze read document = .error e) :
    (validate read document).find? (·.blockId.isNone) = some e.issue := by
  obtain ⟨before, s, after, hsplit, hbefore, hs⟩ := analyze_eq_error_iff.mp h
  obtain ⟨blocks, hblocks⟩ := exists_map_eq_map_ok hbefore
  obtain ⟨seen, hissues⟩ := issuesOf_append_error blocks e false (after.map (analyzeSegment read))
  have hnone : (issuesOf false (blocks.map .ok)).find? (·.blockId.isNone) = none := by
    rw [List.find?_eq_none]
    intro issue hissue
    obtain ⟨block, -, hid⟩ := exists_of_mem_issuesOf hissue
    simp [hid]
  rw [validate, hsplit, List.map_append, List.map_cons, hblocks, hs, hissues, List.find?_append,
    hnone, Option.none_or, List.find?_cons_of_pos]
  rfl

/-! ### Identifiers -/

/-- The identifier of a block tells its position, whatever its type is. -/
theorem blockId_injective {s t : Text} {m n : Nat} (h : blockId s m = blockId t n) : m = n := by
  have hr := congrArg List.reverse h
  simp only [blockId, List.reverse_append, List.reverse_cons, List.append_assoc,
    List.singleton_append] at hr
  have hdigits : ∀ k, '-' ∉ (Text.ofNat k).reverse := by
    intro k hk
    exact Text.notMem_ofNat (by decide) k (List.mem_reverse.mp hk)
  have hm := Text.takeWhile_ne_append (hdigits m) s.reverse
  rw [hr, Text.takeWhile_ne_append (hdigits n)] at hm
  exact Text.ofNat_injective (List.reverse_injective hm.symm)

/-- The segments of a document are numbered. -/
theorem position_segments (document : Text) :
    (segments document).map Segment.position = List.range (segments document).length := by
  apply List.ext_getElem
  · simp
  · intro i h₁ h₂
    simp [segments]

/-- No two blocks of a document have the same identifier. -/
theorem nodup_ids (h : analyze read document = .ok blocks) : (blocks.map Block.id).Nodup := by
  have hpositions : (segments document).Pairwise fun s t => s.position ≠ t.position := by
    rw [← List.pairwise_map (f := Segment.position), position_segments]
    exact List.nodup_range
  have hanalysed : ((segments document).map (analyzeSegment read)).Pairwise
      fun x y => ∀ a b, x = .ok a → y = .ok b → a.id ≠ b.id := by
    rw [List.pairwise_map]
    apply hpositions.imp
    intro _ _ hne a b ha hb hid
    obtain ⟨-, s, hs⟩ := id_span_of_analyzeSegment_eq_ok ha
    obtain ⟨-, t, ht⟩ := id_span_of_analyzeSegment_eq_ok hb
    exact hne (blockId_injective (by rw [← hs, ← ht, hid]))
  rw [analyze_eq_ok_iff.mp h, List.pairwise_map] at hanalysed
  rw [List.Nodup, List.pairwise_map]
  exact hanalysed.imp fun hab => hab _ _ rfl rfl

/-- **Validation and analysis agree** on every document, whatever the reader of YAML answers.  The
issues are those of the segments, in their order.  An analysis succeeds exactly when no segment
fails, and then every issue names exactly one block by an identifier that no other block has.  It
fails with the error of the first segment that does, the one that the first issue without a block
reports. -/
theorem validate_agrees_with_analyze (read : YamlReader) (document : Text) :
    validate read document =
        ((segments document).mapIdx fun i s =>
          issue? read ((segments document).take i) s).reduceOption ∧
      ((∃ blocks, analyze read document = .ok blocks) ↔
        ∀ s ∈ segments document, ∃ block, analyzeSegment read s = .ok block) ∧
      (∀ e, analyze read document = .error e ↔
        ∃ before s after, segments document = before ++ s :: after ∧
          (∀ b ∈ before, ∃ block, analyzeSegment read b = .ok block) ∧
          analyzeSegment read s = .error e) ∧
      (∀ e, analyze read document = .error e →
        ∃ issue, (validate read document).find? (·.blockId.isNone) = some issue ∧
          issue.message = e.message ∧ issue.span = some e.span) ∧
      ∀ blocks, analyze read document = .ok blocks →
        (blocks.map Block.id).Nodup ∧
          ∀ issue ∈ validate read document,
            ∃! block, block ∈ blocks ∧ issue.blockId = some block.id := by
  refine ⟨validate_eq_mapIdx read document, exists_analyze_eq_ok_iff, fun e => analyze_eq_error_iff,
    fun e h => ⟨e.issue, find?_validate h, rfl, rfl⟩, fun blocks h => ⟨nodup_ids h, ?_⟩⟩
  intro issue hissue
  rw [validate, analyze_eq_ok_iff.mp h] at hissue
  obtain ⟨block, hblock, hid⟩ := exists_of_mem_issuesOf hissue
  refine ⟨block, ⟨hblock, hid⟩, ?_⟩
  rintro other ⟨hother, hid'⟩
  exact List.inj_on_of_nodup_map (nodup_ids h) hother hblock (Option.some.inj (hid'.symm.trans hid))

end Document

end InterviewPlan
