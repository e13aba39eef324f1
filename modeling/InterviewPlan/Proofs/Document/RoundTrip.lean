import InterviewPlan.Proofs.Document.Blocks
import InterviewPlan.Proofs.Document.Validation

/-!
# Documents of blocks

A document that is put together from the blocks of clean plans is cut into these blocks again, and
all it can be blamed for is that several of its plans are mandatory.

## Main definitions

* `Document.ofPlans`: the document of some plans
* `Document.ReadsBlock`: what a reader of YAML makes of a block
* `Document.repeated`: the segments of the mandatory plans after the first one

## Main results

* `Document.issuesOf_segments`: the issues of segments that are blocks
* `Document.segments_validate_ofPlans`: the segments of a document of blocks, and its issues
-/

namespace InterviewPlan

open Text Script

namespace Document

variable {read : YamlReader} {plan : Plan} {plans : List Plan} {s : Segment}

/-- The document of some plans: their blocks, with a separator line between each two of them. -/
def ofPlans (plans : List Plan) : Text := joinWith separator (plans.map compile)

/-! ### The analysis of a block -/

/-- What a reader of YAML makes of the block of a plan: a mapping with an identifier, the truth
value of the plan and a text, the code, and with no other key. -/
def ReadsBlock (read : YamlReader) (plan : Plan) : Prop :=
  ∃ (mapping : Yaml.Mapping) (code : Text), read (compile plan) = .ok (.mapping mapping) ∧
    (∀ key, mapping.hasKey key = true ↔
      key = "id".toList ∨ key = "mandatory".toList ∨ key = "code".toList) ∧
    mapping.get? "mandatory".toList = some (.bool plan.mandatory) ∧
    mapping.get? "code".toList = some (.str code)

theorem get?_eq_none {name : Text} {mapping : Yaml.Mapping} (h : mapping.hasKey name = false) :
    mapping.get? name = none := by
  have hfind : mapping.find? (Yaml.Mapping.isKey name ·.1) = none := by
    rw [List.find?_eq_none]
    intro entry hentry hkey
    rw [Yaml.Mapping.hasKey, List.any_eq_false] at h
    exact h entry hentry hkey
  rw [Yaml.Mapping.get?, hfind]
  rfl

/-- The block of a plan is analysed as an order block of the type `code`, as mandatory as the plan
is. -/
theorem analyzeSegment_compile (htext : s.text = compile plan) (hread : ReadsBlock read plan) :
    ∃ block, analyzeSegment read s = .ok block ∧ block.isOrder = true ∧
      block.isMandatory = plan.mandatory ∧ block.id = blockId "code".toList s.position ∧
      block.span = s.span := by
  obtain ⟨mapping, code, hvalue, hkeys, hmandatory, -⟩ := hread
  have hother : ∀ key, key ≠ "id".toList → key ≠ "mandatory".toList → key ≠ "code".toList →
      mapping.hasKey key = false := by
    intro key hid hmandatory hcode
    rw [Bool.eq_false_iff, ne_eq, hkeys]
    simp only [hid, hmandatory, hcode, or_self, not_false_eq_true]
  have hnested : nestedOrder? mapping = none := by
    rw [nestedOrder?, get?_eq_none (hother _ (by decide) (by decide) (by decide))]
    rfl
  have htype : BlockType.ofMapping mapping = "code".toList := by
    have hquestion := hother "question".toList (by decide) (by decide) (by decide)
    have hcode : mapping.hasKey "code".toList = true := (hkeys _).mpr (Or.inr (Or.inr rfl))
    rw [BlockType.ofMapping, BlockType.known, List.map_cons, List.map_cons]
    simp only [List.find?_cons, hquestion, hcode]
    rfl
  refine ⟨blockOfMapping s mapping, ?_, ?_, ?_, ?_, rfl⟩
  · rw [analyzeSegment, htext, hvalue]
    rfl
  · rw [blockOfMapping, htext]
    exact Bool.or_eq_true_iff.mpr (Or.inr (Detect.isOrder_compile plan _ _))
  · rw [blockOfMapping, hnested, Option.getD_none, hmandatory]
    rfl
  · rw [blockOfMapping, htype]

/-! ### The issues of blocks -/

/-- The segments of the mandatory plans after the first one; after the first of them all, if none
has been `seen`. -/
def repeated (seen : Bool) (segs : List Segment) (plans : List Plan) : List Segment :=
  ((((segs.zip plans).filter (·.2.mandatory)).drop (if seen then 0 else 1))).map (·.1)

/-- The issue of the block of a mandatory plan after another one. -/
def repeatedIssue (s : Segment) : Issue :=
  ⟨some (blockId "code".toList s.position), .error, secondMandatory, some s.span⟩

/-- **The issues of segments that are blocks** are those of the mandatory plans after the first. -/
theorem issuesOf_segments {segs : List Segment} (hread : ∀ plan ∈ plans, ReadsBlock read plan)
    (htexts : segs.map Segment.text = plans.map compile) (seen : Bool) :
    issuesOf seen (segs.map (analyzeSegment read)) =
      (repeated seen segs plans).map repeatedIssue := by
  induction plans generalizing segs seen with
  | nil =>
    obtain rfl := List.map_eq_nil_iff.mp htexts
    simp [issuesOf, repeated]
  | cons plan plans ih =>
    cases segs with
    | nil => cases htexts
    | cons s segs =>
      obtain ⟨htext, hrest⟩ := List.cons.inj htexts
      obtain ⟨hplan, hplans⟩ := List.forall_mem_cons.mp hread
      obtain ⟨block, hblock, horder, hmandatory, hid, hspan⟩ := analyzeSegment_compile htext hplan
      rw [List.map_cons, hblock, issuesOf, horder, hmandatory, Bool.true_and]
      cases hcase : plan.mandatory with
      | false =>
        rw [if_neg (by decide), ih hplans hrest]
        simp [repeated, hcase]
      | true =>
        rw [if_pos rfl, ih hplans hrest]
        cases seen with
        | false => simp [repeated, hcase]
        | true => simp [repeated, hcase, repeatedIssue, repeatedMandatory, Issue.error, hid, hspan]

/-- **A document of blocks** is cut into them again: its segments are the blocks of the plans, in
their order and numbered from zero, and each span cuts its segment out of the document.  Whatever
reader of YAML makes of each block what it says, the document has an issue for each mandatory plan
after the first one, in their order, and no other. -/
theorem segments_validate_ofPlans (hclean : ∀ plan ∈ plans, plan.IsClean)
    (hunbroken : ∀ plan ∈ plans, plan.IsUnbroken) :
    ((segments (ofPlans plans)).map Segment.text = plans.map compile ∧
        (segments (ofPlans plans)).map Segment.position = List.range plans.length ∧
        ∀ s ∈ segments (ofPlans plans), s.span.Cuts (ofPlans plans) s.text) ∧
      ∀ read : YamlReader, (∀ plan ∈ plans, ReadsBlock read plan) →
        validate read (ofPlans plans) =
            (repeated false (segments (ofPlans plans)) plans).map repeatedIssue ∧
          (validate read (ofPlans plans)).length = plans.countP Plan.mandatory - 1 := by
  have hpieces : ∀ t ∈ plans.map compile, IsPiece t := by
    intro t ht
    obtain ⟨plan, hplan, rfl⟩ := List.mem_map.mp ht
    exact isPiece_compile (hclean plan hplan) (hunbroken plan hplan)
  have hsegments : (segments (ofPlans plans)).map Segment.text = plans.map compile ∧
      ∀ s ∈ segments (ofPlans plans), s.span.Cuts (ofPlans plans) s.text :=
    segments_joinWith hpieces
  have hlength : (segments (ofPlans plans)).length = plans.length := by
    simpa using congrArg List.length hsegments.1
  have hpositions : (segments (ofPlans plans)).map Segment.position = List.range plans.length := by
    rw [position_segments, hlength]
  refine ⟨⟨hsegments.1, hpositions, hsegments.2⟩, ?_⟩
  intro read hread
  have hvalidate := issuesOf_segments hread hsegments.1 false
  refine ⟨hvalidate, ?_⟩
  have hcount : ((segments (ofPlans plans)).zip plans).countP (·.2.mandatory) =
      plans.countP Plan.mandatory := by
    have hmap := List.countP_map (p := Plan.mandatory) (f := Prod.snd)
      (l := (segments (ofPlans plans)).zip plans)
    rw [List.map_snd_zip (by omega)] at hmap
    exact hmap.symm
  rw [validate, hvalidate, List.length_map, repeated, List.length_map, List.length_drop,
    ← List.countP_eq_length_filter, hcount]
  rfl

/-- Three plans, the first and the last of them mandatory. -/
def samplePlans : List Plan :=
  [⟨samplePlan.id, true, samplePlan.steps⟩, samplePlan, ⟨samplePlan.id, true, samplePlan.steps⟩]

/-- A mapping of three texts, as a block is read. -/
def isBlockMapping (mandatory : Bool) : Yaml.Value → Bool
  | .mapping [(.str id, _), (.str word, .bool b), (.str code, .str _)] =>
    id = "id".toList && word = "mandatory".toList && code = "code".toList && b = mandatory
  | _ => false

theorem readsBlock_of {parse : Text → Option Yaml.Value}
    (h : (parse (compile plan)).any (isBlockMapping plan.mandatory) = true) :
    ReadsBlock parse plan := by
  obtain ⟨value, hvalue, hmapping⟩ := (Option.any_eq_true _ _).mp h
  unfold isBlockMapping at hmapping
  split at hmapping
  · next id name word b code script =>
    simp only [Bool.and_eq_true, decide_eq_true_iff] at hmapping
    obtain ⟨⟨⟨rfl, rfl⟩, rfl⟩, rfl⟩ := hmapping
    refine ⟨_, script, Source.ofOption_of_eq_some hvalue, ?_, rfl, rfl⟩
    intro key
    simp only [Yaml.Mapping.hasKey, List.any_cons, List.any_nil, Yaml.Mapping.isKey, Bool.or_false,
      Bool.or_eq_true, decide_eq_true_iff, eq_comm (b := key)]
  · cases hmapping

/-- A document of three blocks. -/
theorem segments_validate_samplePlans :
    (∀ plan ∈ samplePlans, plan.IsClean ∧ plan.IsUnbroken ∧ ReadsBlock Yaml.parse plan) ∧
      (segments (ofPlans samplePlans)).map Segment.text = samplePlans.map compile ∧
      (validate Yaml.parse (ofPlans samplePlans)).length = 1 := by
  have hclean : ∀ plan ∈ samplePlans, plan.IsClean := by
    obtain ⟨hid, hhead, hlast, hsteps⟩ := isClean_samplePlan
    simp only [samplePlans, List.forall_mem_cons]
    exact ⟨⟨hid, hhead, hlast, hsteps⟩, isClean_samplePlan, ⟨hid, hhead, hlast, hsteps⟩, nofun⟩
  have hunbroken : ∀ plan ∈ samplePlans, plan.IsUnbroken := by decide +kernel
  have hread : ∀ plan ∈ samplePlans, ReadsBlock Yaml.parse plan := by
    have hall : ∀ plan ∈ samplePlans,
        (Yaml.parse (compile plan)).any (isBlockMapping plan.mandatory) = true := by decide +kernel
    exact fun plan hplan => readsBlock_of (hall plan hplan)
  obtain ⟨⟨htexts, -⟩, hvalidate⟩ := segments_validate_ofPlans hclean hunbroken
  refine ⟨?_, htexts, (hvalidate Yaml.parse hread).2⟩
  intro plan hplan
  exact ⟨hclean plan hplan, hunbroken plan hplan, hread plan hplan⟩

/-- A clean plan of one step whose block is cut in two. -/
def CutsInTwo (s : Step) : Prop :=
  Plan.IsClean ⟨"main".toList, true, [s]⟩ ∧
    (segments (ofPlans [⟨"main".toList, true, [s]⟩])).length = 2

/-- **A separator inside of what is quoted** cuts the block of a clean plan: in the name of a
section, in a key of the data of a snapshot, and in a text of it. -/
theorem cutsInTwo_of_separator_inside :
    CutsInTwo (.enter "a\n---\nb".toList) ∧
      CutsInTwo (.snapshot ⟨true, [("a\n---\nb".toList, .null)]⟩) ∧
      CutsInTwo (.snapshot ⟨true, [("note".toList, .str "a\n---\nb".toList)]⟩) := by
  have hclean : ∀ s : Step, s.Clean → s.blocks = [] → Plan.IsClean ⟨"main".toList, true, [s]⟩ := by
    intro s hs hblocks
    have hid : IsInline "main".toList := by decide
    refine ⟨hid, rfl, rfl, .cons hs ?_ .nil⟩
    intro block hb
    rw [hblocks] at hb
    cases hb
  refine ⟨⟨hclean _ trivial rfl, ?_⟩, ⟨hclean _ trivial rfl, ?_⟩, ⟨hclean _ trivial rfl, ?_⟩⟩
  · decide +kernel
  · decide +kernel
  · decide +kernel

end Document

end InterviewPlan
