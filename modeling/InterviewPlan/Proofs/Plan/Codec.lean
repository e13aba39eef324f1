import InterviewPlan.Plan.Codec
import InterviewPlan.Proofs.Plan.Throughout

/-!
# Plans survive as JSON

A plan is read back from the JSON that is written for it.  No name is written twice for a step, so
that each member is the one of its name, and the tag in front tells the kind.  What the two forms of
an absent field could be confused with is written in a way of its own: an else-branch without steps
is an empty array, and one that is absent has no member at all.  Only an infinity has no JSON value.

## Main definitions

* `Json.IsDistinct`: a value in which no object has a name twice
* `Step.HasJson`: a step whose numbers and data have JSON values

## Main results

* `Json.distinct_eq_self`: reading leaves a value alone in which no object has a name twice
* `Codec.only?_eq_lookup`: where no name is repeated, the one member of a name is the first
* `Step.ofJson?_toJson_of_blocks`: a step reads back if the steps below it do
* `Plan.ofJson?_toJson`: a plan reads back
-/

namespace InterviewPlan

/-! ### Objects without repeated names -/

namespace Json

mutual

/-- No object in the value has a name twice, at any depth. -/
def IsDistinct : Json → Prop
  | .arr items => ItemsDistinct items
  | .obj members => (members.map Prod.fst).Nodup ∧ ValuesDistinct members
  | _ => True

/-- `IsDistinct` for each item. -/
def ItemsDistinct : List Json → Prop
  | [] => True
  | value :: rest => value.IsDistinct ∧ ItemsDistinct rest

/-- `IsDistinct` for the value of each member. -/
def ValuesDistinct : List (Text × Json) → Prop
  | [] => True
  | (_, value) :: rest => value.IsDistinct ∧ ValuesDistinct rest

end

theorem putMember_of_notMem {name : Text} {members : List (Text × Json)}
    (h : name ∉ members.map Prod.fst) (value : Json) :
    putMember name value members = members ++ [(name, value)] := by
  induction members with
  | nil => rfl
  | cons member rest ih =>
    rw [List.map_cons, List.mem_cons, not_or] at h
    rw [putMember, if_neg (Ne.symm h.1), ih h.2, List.cons_append]

/-- Members with names of their own stay as they are. -/
theorem distinctMembers_eq_self {members : List (Text × Json)}
    (h : (members.map Prod.fst).Nodup) : distinctMembers members = members := by
  have hfold : ∀ done : List (Text × Json), ((done ++ members).map Prod.fst).Nodup →
      members.foldl (fun done member => putMember member.1 member.2 done) done =
        done ++ members := by
    clear h
    induction members with
    | nil => simp
    | cons member rest ih =>
      intro done h
      have hname : member.1 ∉ done.map Prod.fst := by
        rw [List.map_append, List.nodup_append] at h
        exact fun hm => h.2.2 _ hm _ List.mem_cons_self rfl
      rw [List.foldl_cons, putMember_of_notMem hname, ih _ (by simpa using h), List.append_assoc,
        List.singleton_append]
  exact hfold [] h

mutual

/-- **Reading leaves a value alone** in which no object has a name twice. -/
theorem distinct_eq_self (value : Json) (h : value.IsDistinct) : value.distinct = value := by
  cases value with
  | arr items =>
    rw [IsDistinct] at h
    rw [distinct, distinctItems_eq_self items h]
  | obj members =>
    rw [IsDistinct] at h
    rw [distinct, distinctValues_eq_self members h.2, distinctMembers_eq_self h.1]
  | _ => rw [distinct] <;> nofun

theorem distinctItems_eq_self (items : List Json) (h : ItemsDistinct items) :
    distinctItems items = items := by
  cases items with
  | nil => rfl
  | cons value rest =>
    rw [ItemsDistinct] at h
    rw [distinctItems, distinct_eq_self value h.1, distinctItems_eq_self rest h.2]

theorem distinctValues_eq_self (members : List (Text × Json)) (h : ValuesDistinct members) :
    distinctValues members = members := by
  cases members with
  | nil => rfl
  | cons member rest =>
    obtain ⟨name, value⟩ := member
    rw [ValuesDistinct] at h
    rw [distinctValues, distinct_eq_self value h.1, distinctValues_eq_self rest h.2]

end

end Json

/-- A step whose fields have JSON values: its percentage is finite, and no object in its data has a
name twice. -/
def Step.HasJson : Step → Prop
  | .progress value => value.isFinite = true
  | .snapshot args => (Json.obj args.data).IsDistinct
  | _ => True

/-! ### The members of an object -/

namespace Codec

variable {α : Type} {name : String} {kind : Kind} {m : Member} {t : Text} {ns : List Step}

/-- Where no name is repeated, the one member of a name is the first. -/
theorem only?_eq_lookup {members : List (Text × α)} (h : (members.map Prod.fst).Nodup)
    (name : Text) : only? name members = some (members.lookup name) := by
  induction members with
  | nil => rfl
  | cons member rest ih =>
    obtain ⟨n, m⟩ := member
    obtain ⟨hn, hrest⟩ := List.nodup_cons.mp h
    by_cases hname : n = name
    · have hfilter : rest.filter (·.1 = name) = [] := by
        rw [List.filter_eq_nil_iff]
        intro x hx hxn
        refine hn (List.mem_map.mpr ⟨x, hx, ?_⟩)
        rw [hname]
        simpa using hxn
      rw [only?, List.filter_cons_of_pos (by simpa using hname), hfilter, List.lookup_cons, hname,
        beq_self_eq_true]
    · have hbeq : (name == n) = false := beq_eq_false_iff_ne.mpr (Ne.symm hname)
      rw [only?, List.filter_cons_of_neg (by simpa using hname), List.lookup_cons, hbeq, ← only?]
      exact ih hrest

section Members

variable {members : List (Text × Member)} (h : (members.map Prod.fst).Nodup)
include h

theorem requiredText?_eq (hm : members.lookup name.toList = some m) (ht : m.value = .str t) :
    requiredText? name members = some t := by
  rw [requiredText?, only?_eq_lookup h, hm, Option.bind_eq_bind, Option.bind_some,
    Option.bind_eq_bind, Option.bind_some, ht]
  rfl

theorem stepList?_eq (hm : members.lookup name.toList = some m) (hns : m.steps = some ns) :
    stepList? name members = some ns := by
  rw [stepList?, only?_eq_lookup h, hm]
  exact hns

end Members

end Codec

open Codec

theorem Kind.ofTag?_tag (kind : Kind) : Kind.ofTag? kind.tag = some kind := by
  cases kind <;> decide

/-- The fields of a kind have names of their own, none of which is that of the tag. -/
theorem Kind.nodup_fields (kind : Kind) : ("type".toList :: kind.fields).Nodup := by
  cases kind <;> decide

theorem map_fst_readMembers (members : List (Text × Json)) :
    (readMembers members).map Prod.fst = members.map Prod.fst := by
  induction members with
  | nil => rfl
  | cons member rest ih => rw [readMembers, List.map_cons, List.map_cons, ih]

section Fields

variable {kind : Kind} {members : List (Text × Json)} (h : members.map Prod.fst <+: kind.fields)
include h

theorem nodup_readMembers : ((readMembers members).map Prod.fst).Nodup := by
  rw [map_fst_readMembers]
  exact (List.nodup_cons.mp kind.nodup_fields).2.sublist h.sublist

/-- **The tag tells the kind**, and what stands behind it are the fields. -/
theorem Step.ofJson?_tagged (nested : Bool) :
    Step.ofJson? nested (.obj (("type".toList, .str kind.tag) :: members)) =
      stepOfMembers? kind (readMembers members) := by
  have hsub : ("type".toList :: members.map Prod.fst).Sublist ("type".toList :: kind.fields) :=
    h.sublist.cons_cons _
  have hnodup := kind.nodup_fields.sublist hsub
  have hfilter : (readMembers members).filter (·.1 ≠ "type".toList) = readMembers members := by
    rw [List.filter_eq_self]
    intro m hm
    have hmem := List.mem_map_of_mem (f := Prod.fst) hm
    rw [map_fst_readMembers] at hmem
    have hne : m.1 ≠ "type".toList := fun heq => (List.nodup_cons.mp hnodup).1 (heq ▸ hmem)
    simpa using hne
  have htag : kind? nested (.str kind.tag) = some kind := Kind.ofTag?_tag kind
  rw [Step.ofJson?, readMembers, only?_eq_lookup (by rwa [List.map_cons, map_fst_readMembers]),
    List.lookup_cons, beq_self_eq_true, List.filter_cons_of_neg (by simp), hfilter]
  simp [htag]

end Fields

/-! ### Steps and plans -/

/-- The members that are written for a step behind its tag. -/
def Step.fieldMembers : Step → List (Text × Json)
  | .ask var => [("var".toList, .str var)]
  | .enter name => [("name".toList, .str name)]
  | .progress value => [("value".toList, .ofDouble value)]
  | .gather list => [("list".toList, .str list)]
  | .branch cond yes no =>
    ("cond".toList, .str cond) :: ("then".toList, .arr (stepsToJson yes)) ::
      no.toList.map fun no => ("else".toList, .arr (stepsToJson no))
  | .loop item iter body =>
    [("item".toList, .str item), ("iter".toList, .str iter),
      ("body".toList, .arr (stepsToJson body))]
  | .once name flag =>
    ("name".toList, .str name) :: flag.toList.map fun flag => ("flag".toList, .str flag)
  | .snapshot args => [("args".toList, args.toJson)]

/-- **A step is written** as an object of its tag and its fields. -/
theorem Step.toJson_eq (s : Step) :
    s.toJson = .obj (("type".toList, .str s.kind.tag) :: s.fieldMembers) := by
  cases s with
  | branch cond yes no => cases no <;> rw [toJson] <;> rfl
  | once name flag => cases flag <;> rw [toJson] <;> rfl
  | _ => rw [toJson]; rfl

/-- Only fields at the end are left out. -/
theorem Step.names_fieldMembers (s : Step) : s.fieldMembers.map Prod.fst <+: s.kind.fields := by
  cases s with
  | branch cond yes no =>
    cases no with
    | none => exact ⟨["else".toList], rfl⟩
    | some no => exact ⟨[], rfl⟩
  | once name flag =>
    cases flag with
    | none => exact ⟨["flag".toList], rfl⟩
    | some flag => exact ⟨[], rfl⟩
  | _ => exact ⟨[], rfl⟩

theorem Codec.snapshot?_toJson {args : Snapshot} (h : (Json.obj args.data).IsDistinct) :
    snapshot? args.toJson = some args := by
  have hnodup : ([("persistent".toList, Json.bool args.persistent),
      ("data".toList, Json.obj args.data)].map Prod.fst).Nodup := by
    show ["persistent".toList, "data".toList].Nodup
    decide
  have hdata : Json.distinctMembers (Json.distinctValues args.data) = args.data := by
    have hself := Json.distinct_eq_self _ h
    rw [Json.distinct] at hself
    exact Json.obj.inj hself
  have hnamed : named? ["persistent".toList, "data".toList] args.toJson =
      some [("persistent".toList, .bool args.persistent), ("data".toList, .obj args.data)] := rfl
  rw [snapshot?, hnamed, Option.bind_eq_bind, Option.bind_some, only?_eq_lookup hnodup,
    only?_eq_lookup hnodup]
  show some (⟨args.persistent, Json.distinctMembers (Json.distinctValues args.data)⟩ : Snapshot) =
    some args
  rw [hdata]

/-- **A step reads back** if the steps below it do. -/
theorem Step.ofJson?_toJson_of_blocks {s : Step} (h : s.HasJson)
    (hbelow : ∀ block ∈ s.blocks, readSteps? true (stepsToJson block) = some block)
    (nested : Bool) : Step.ofJson? nested s.toJson = some s := by
  have hnodup := nodup_readMembers s.names_fieldMembers
  rw [s.toJson_eq, Step.ofJson?_tagged s.names_fieldMembers]
  cases s with
  | ask var =>
    rw [kind, stepOfMembers?, requiredText?_eq hnodup rfl rfl]
    rfl
  | enter name =>
    rw [kind, stepOfMembers?, requiredText?_eq hnodup rfl rfl]
    rfl
  | progress value =>
    obtain ⟨x, rfl, hx⟩ := Double.exists_of_isFinite h
    have hvalue : Json.ofDouble (.number x) = .float x := if_pos hx
    rw [kind, stepOfMembers?, only?_eq_lookup hnodup, fieldMembers, hvalue]
    rfl
  | gather list =>
    rw [kind, stepOfMembers?, requiredText?_eq hnodup rfl rfl]
    rfl
  | branch cond yes no =>
    have hyes := hbelow yes (by simp)
    cases no with
    | none =>
      rw [kind, stepOfMembers?, requiredText?_eq hnodup rfl rfl, stepList?_eq hnodup rfl hyes,
        only?_eq_lookup hnodup]
      rfl
    | some no =>
      have hno := hbelow no (by simp)
      rw [kind, stepOfMembers?, requiredText?_eq hnodup rfl rfl, stepList?_eq hnodup rfl hyes,
        only?_eq_lookup hnodup]
      show (readSteps? true (stepsToJson no)).bind
        (fun no => some (Step.branch cond yes (some no))) = _
      rw [hno, Option.bind_some]
  | loop item iter body =>
    have hbody := hbelow body (by simp)
    rw [kind, stepOfMembers?, requiredText?_eq hnodup rfl rfl, requiredText?_eq hnodup rfl rfl,
      stepList?_eq hnodup rfl hbody]
    rfl
  | once name flag =>
    cases flag with
    | none =>
      rw [kind, stepOfMembers?, requiredText?_eq hnodup rfl rfl, only?_eq_lookup hnodup]
      rfl
    | some flag =>
      rw [kind, stepOfMembers?, requiredText?_eq hnodup rfl rfl, only?_eq_lookup hnodup]
      rfl
  | snapshot args =>
    rw [kind, stepOfMembers?, only?_eq_lookup hnodup]
    show (snapshot? args.toJson).bind (fun args => some (Step.snapshot args)) = _
    rw [snapshot?_toJson h, Option.bind_some]

/-- **Steps read back**, at the top of a plan and inside of other steps. -/
theorem readSteps?_stepsToJson {ns : List Step} (h : Step.Throughout (fun s _ => s.HasJson) ns)
    (nested : Bool) : readSteps? nested (stepsToJson ns) = some ns := by
  -- what stands below a step is read as nested, so `nested` is general
  induction h generalizing nested with
  | nil => rfl
  | cons head _ _ ihbelow ihtail =>
    have hstep := Step.ofJson?_toJson_of_blocks head (fun block hb => ihbelow block hb true) nested
    rw [stepsToJson, readSteps?, hstep, ihtail nested]
    rfl

/-- **A plan reads back from its JSON value**: the kinds and the order of its steps at every depth,
an else-branch without steps and an absent one, a flag and the absence of one, and the data of its
snapshots with their members in order. -/
theorem Plan.ofJson?_toJson {plan : Plan}
    (hjson : Step.Throughout (fun s _ => s.HasJson) plan.steps) :
    Plan.ofJson? plan.toJson = some plan := by
  have hnodup : ([("id".toList, Json.str plan.id), ("mandatory".toList, Json.bool plan.mandatory),
      ("nodes".toList, Json.arr (stepsToJson plan.steps))].map Prod.fst).Nodup := by
    show Plan.fields.Nodup
    decide
  have hnamed : named? Plan.fields plan.toJson = some [("id".toList, .str plan.id),
      ("mandatory".toList, .bool plan.mandatory),
      ("nodes".toList, .arr (stepsToJson plan.steps))] := rfl
  rw [Plan.ofJson?, hnamed, Option.bind_eq_bind, Option.bind_some, only?_eq_lookup hnodup,
    only?_eq_lookup hnodup, only?_eq_lookup hnodup]
  show (readSteps? false (stepsToJson plan.steps)).bind
    (fun steps => some (⟨plan.id, plan.mandatory, steps⟩ : Plan)) = some plan
  rw [readSteps?_stepsToJson hjson, Option.bind_some]

/-- A plan with steps of every kind: an else-branch that is absent and one without steps, a flag and
none, and objects inside of the data of a snapshot. -/
def jsonSample : Plan :=
  ⟨"main".toList, false,
    [.enter "About you".toList, .progress (.number (.ofRatio false 5 2)),
      .branch "a".toList [.ask "b".toList, .branch "c".toList [.gather "d".toList] (some [])] none,
      .loop "x".toList "xs".toList
        [.once "y".toList none, .once "z".toList (some "seen".toList)],
      .snapshot ⟨false,
        [("k".toList, .obj [("n".toList, .arr [.int 1, .null]), ("a".toList, .obj [])]),
          ("a".toList, .bool true)]⟩]⟩

/-- A plan with steps of every kind reads back. -/
theorem Plan.ofJson?_toJson_jsonSample :
    Step.Throughout (fun s _ => s.HasJson) jsonSample.steps ∧
      Plan.ofJson? jsonSample.toJson = some jsonSample := by
  have hdata : (Json.obj [("k".toList, .obj [("n".toList, .arr [.int 1, .null]),
      ("a".toList, .obj [])]), ("a".toList, .bool true)]).IsDistinct := by
    refine ⟨by decide, ⟨by decide, ?_⟩, trivial, trivial⟩
    exact ⟨⟨trivial, trivial, trivial⟩, ⟨List.nodup_nil, trivial⟩, trivial⟩
  have hbranch : Step.Throughout (fun s _ => s.HasJson)
      [.ask "b".toList, .branch "c".toList [.gather "d".toList] (some [])] := by
    refine .cons trivial nofun (.cons trivial ?_ .nil)
    intro block hb
    rcases Step.mem_blocks_branch.mp hb with rfl | hb
    · exact .cons trivial nofun .nil
    · obtain rfl := Option.some.inj hb
      exact .nil
  have hsteps : Step.Throughout (fun s _ => s.HasJson) jsonSample.steps := by
    refine .cons trivial nofun (.cons (by decide : Double.isFinite _ = true) nofun
      (.cons trivial ?_ (.cons trivial ?_ (.cons hdata nofun .nil))))
    · intro block hb
      rcases Step.mem_blocks_branch.mp hb with rfl | hb
      · exact hbranch
      · cases hb
    · intro block hb
      obtain rfl := Step.mem_blocks_loop.mp hb
      exact .cons trivial nofun (.cons trivial nofun .nil)
  exact ⟨hsteps, Plan.ofJson?_toJson hsteps⟩

end InterviewPlan
