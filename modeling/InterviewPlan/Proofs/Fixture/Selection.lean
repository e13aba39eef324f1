import Mathlib.Data.List.Infix
import InterviewPlan.Fixture.Report

/-!
# Which categories requests select

Requests are taken one after the other, and each adds the categories it asks for to those that are
there already.  Which categories are selected in the end depends on the names that are requested,
but neither on their order nor on how often they come.  Which requests add nothing does depend on
it: a request adds nothing if it asks for no category of the catalogue, but also if requests before
it have asked for all of them.  The warning that a category is not found does not tell the two
apart.

## Main definitions

* `Catalogue.AsksFor`: a category is asked for by a name
* `Catalogue.Adds`: a request asks for a category that none before it asks for

## Main results

* `Catalogue.mem_categories_ask`, `Catalogue.idle_ask`: what one more request changes
* `Catalogue.mem_categories_selection`, `Catalogue.idle_selection`: what all requests come to
* `Catalogue.select_exactly`: which categories are kept, and which requests are warned of
* `Catalogue.warnsOfFound_of_earlier_request`: warnings of categories that are there
-/

namespace InterviewPlan

namespace Catalogue

variable {catalogue : Catalogue} {names others : List Text} {name category : Text}

/-! ### Requests and categories -/

/-- A category is asked for by a name if it has that name or lies below the category that has. -/
def AsksFor (name category : Text) : Prop := category = name ∨ name ++ ['/'] <+: category

instance (name category : Text) : Decidable (AsksFor name category) :=
  inferInstanceAs (Decidable (category = name ∨ name ++ ['/'] <+: category))

theorem covers_iff : covers name category = true ↔ AsksFor name category := by
  simp [covers, AsksFor]

/-- A request adds to those before it if it asks for a category that none of them asks for. -/
def Adds (catalogue : Catalogue) (before : List Text) (name : Text) : Prop :=
  ∃ category ∈ catalogue.map (·.1),
    AsksFor name category ∧ ∀ other ∈ before, ¬ AsksFor other category

instance (catalogue : Catalogue) (before : List Text) (name : Text) :
    Decidable (Adds catalogue before name) :=
  inferInstanceAs (Decidable (∃ category ∈ catalogue.map (·.1),
    AsksFor name category ∧ ∀ other ∈ before, ¬ AsksFor other category))

/-! ### One more request -/

variable {s : Selection}

/-- **One more request** adds the categories it asks for. -/
theorem mem_categories_ask :
    category ∈ (s.ask catalogue name).categories ↔
      category ∈ s.categories ∨ category ∈ catalogue.map (·.1) ∧ AsksFor name category := by
  simp only [Selection.ask, List.mem_append, List.mem_filter, Bool.and_eq_true, covers_iff,
    Bool.not_eq_true', List.contains_eq_mem, decide_eq_false_iff_not]
  constructor
  · rintro (h | ⟨hcategory, hname, -⟩)
    · exact Or.inl h
    · exact Or.inr ⟨hcategory, hname⟩
  · rintro (h | ⟨hcategory, hname⟩)
    · exact Or.inl h
    · by_cases h : category ∈ s.categories
      · exact Or.inl h
      · exact Or.inr ⟨hcategory, hname, h⟩

/-- **One more request** is idle if all categories it asks for are there already. -/
theorem idle_ask (h : ∀ category ∈ catalogue.map (·.1), category ∈ s.categories ↔
      ∃ other ∈ names, AsksFor other category) :
    (s.ask catalogue name).idle = s.idle ++ if Adds catalogue names name then [] else [name] := by
  have hadded : ((catalogue.map (·.1)).filter fun category =>
      covers name category && !s.categories.contains category).isEmpty = true ↔
        ¬ Adds catalogue names name := by
    rw [List.isEmpty_iff, List.filter_eq_nil_iff, Adds, not_exists]
    refine forall_congr' fun category => ?_
    rw [not_and]
    refine imp_congr_right fun hcategory => not_congr ?_
    rw [Bool.and_eq_true, covers_iff, Bool.not_eq_true', List.contains_eq_mem,
      decide_eq_false_iff_not, h category hcategory, not_exists]
    exact and_congr_right fun _ => forall_congr' fun _ => not_and
  rw [Selection.ask]
  by_cases hadds : Adds catalogue names name
  · rw [if_pos hadds, if_neg (fun hempty => hadded.mp hempty hadds), List.append_nil]
  · rw [if_neg hadds, if_pos (hadded.mpr hadds)]

/-! ### All requests -/

theorem selection_concat (catalogue : Catalogue) (names : List Text) (name : Text) :
    selection catalogue (names ++ [name]) = (selection catalogue names).ask catalogue name :=
  List.foldl_append

/-- **The categories that are selected** are those of the catalogue that some request asks for. -/
theorem mem_categories_selection :
    category ∈ (selection catalogue names).categories ↔
      category ∈ catalogue.map (·.1) ∧ ∃ name ∈ names, AsksFor name category := by
  induction names using List.reverseRecOn with
  | nil => simp [selection]
  | append_singleton names name ih =>
    rw [selection_concat, mem_categories_ask, ih, ← and_or_left]
    simp only [List.mem_append, List.mem_singleton, or_and_right, exists_or, exists_eq_left]

/-- The requests that add nothing to those before them, in their order. -/
theorem idle_selection (catalogue : Catalogue) (names : List Text) :
    (selection catalogue names).idle =
      (names.zipIdx.filter fun x => !decide (Adds catalogue (names.take x.2) x.1)).map (·.1) := by
  induction names using List.reverseRecOn with
  | nil => rfl
  | append_singleton names name ih =>
    have hbefore : names.zipIdx.filter
          (fun x => !decide (Adds catalogue ((names ++ [name]).take x.2) x.1)) =
        names.zipIdx.filter fun x => !decide (Adds catalogue (names.take x.2) x.1) := by
      refine List.filter_congr fun x hx => ?_
      have hlt : x.2 < names.length := by simpa using List.snd_lt_of_mem_zipIdx hx
      rw [List.take_append_of_le_length hlt.le]
    have hselected : ∀ category ∈ catalogue.map (·.1),
        category ∈ (selection catalogue names).categories ↔
          ∃ other ∈ names, AsksFor other category := by
      intro category hcategory
      rw [mem_categories_selection, and_iff_right hcategory]
    rw [selection_concat, idle_ask hselected, ih, List.zipIdx_append, List.filter_append,
      List.map_append, hbefore]
    by_cases hadds : Adds catalogue names name <;> simp [hadds]

/-- Requests keep the categories that one of them asks for. -/
theorem select_eq_filter (catalogue : Catalogue) (hnames : names ≠ []) :
    select catalogue names =
      catalogue.filter fun entry => decide (∃ name ∈ names, AsksFor name entry.1) := by
  have hempty : ¬ names.isEmpty = true := fun h => hnames (List.isEmpty_iff.mp h)
  rw [select, if_neg hempty]
  refine List.filter_congr fun (category, files) hentry => ?_
  have hcategory : category ∈ catalogue.map (·.1) := List.mem_map_of_mem hentry
  dsimp only
  rw [List.contains_eq_mem]
  exact decide_eq_decide.mpr (mem_categories_selection.trans (and_iff_right hcategory))

/-- **Which categories requests select**: exactly those that one of them asks for, each with its own
fixtures and once if it stands in the catalogue once, in whatever order and how often the names are
requested.  The report begins with the warnings, one for each request that adds nothing to those
before it. -/
theorem select_exactly (catalogue : Catalogue) {requests : List Text} (hrequests : requests ≠ []) :
    (select catalogue (requests.map requestName)).Sublist catalogue ∧
      (∀ category files, (category, files) ∈ select catalogue (requests.map requestName) ↔
        (category, files) ∈ catalogue ∧
          ∃ request ∈ requests, AsksFor (requestName request) category) ∧
      (∀ others : List Text,
        (∀ name, name ∈ others.map requestName ↔ name ∈ requests.map requestName) →
          select catalogue (others.map requestName) =
            select catalogue (requests.map requestName)) ∧
      (selection catalogue (requests.map requestName)).idle =
        ((requests.map requestName).zipIdx.filter fun x =>
          !decide (Adds catalogue ((requests.map requestName).take x.2) x.1)).map (·.1) ∧
      ∀ read color path,
        (selection catalogue (requests.map requestName)).idle.map Report.warning <+:
          (Report.ofCatalogue read color path catalogue requests).lines := by
  have hnames : requests.map requestName ≠ [] := by simpa using hrequests
  have hselect := select_eq_filter catalogue hnames
  refine ⟨?_, fun category files => ?_, fun others hsame => ?_, idle_selection catalogue _, ?_⟩
  · rw [hselect]
    exact List.filter_sublist
  · rw [hselect, List.mem_filter, decide_eq_true_eq]
    simp
  · have hothers : others.map requestName ≠ [] := by
      obtain ⟨name, hname⟩ := List.exists_mem_of_ne_nil _ hnames
      exact List.ne_nil_of_mem ((hsame name).mpr hname)
    rw [hselect, select_eq_filter catalogue hothers]
    simp only [hsame]
  · intro read color path
    unfold Report.ofCatalogue
    dsimp only
    split
    · exact List.prefix_append _ _
    · exact List.prefix_append _ _

/-- A catalogue of two nested categories and a third one whose name begins like theirs. -/
def nestedCategories : Catalogue :=
  [("a".toList, [⟨["a".toList, "x.order.test".toList], .empty⟩]),
    ("a/b".toList, [⟨["a".toList, "b".toList, "y.order.test".toList], .empty⟩]),
    ("ab".toList, [⟨["ab".toList, "z.order.test".toList], .empty⟩])]

/-- The inner category, the outer one, the inner one again, and one that is not there. -/
def nestedRequests : List Text := ["a/b/".toList, "/a".toList, "a/b".toList, "b".toList]

/-- Of these requests, the first two select what they ask for, and the other two are warned of. -/
theorem select_exactly_nestedCategories :
    nestedRequests ≠ [] ∧
      (∀ category files,
        (category, files) ∈ select nestedCategories (nestedRequests.map requestName) ↔
          (category, files) ∈ nestedCategories ∧
            ∃ request ∈ nestedRequests, AsksFor (requestName request) category) ∧
      (selection nestedCategories (nestedRequests.map requestName)).idle =
        ["a/b".toList, "b".toList] := by
  have hne : nestedRequests ≠ [] := List.cons_ne_nil _ _
  obtain ⟨-, hmem, -, hidle, -⟩ := select_exactly nestedCategories hne
  exact ⟨hne, hmem, hidle.trans (by decide)⟩

/-- A request for a category that is there is warned of. -/
def WarnsOfFound (catalogue : Catalogue) (requests : List Text) : Prop :=
  ∃ name ∈ (selection catalogue (requests.map requestName)).idle,
    ∃ category ∈ catalogue.map (·.1), AsksFor name category

/-- **Warnings of categories that are there**: a request that is repeated is warned of, and so is
one for a category below another one that has been requested. -/
theorem warnsOfFound_of_earlier_request :
    WarnsOfFound nestedCategories ["ab".toList, "ab".toList] ∧
      WarnsOfFound nestedCategories ["a".toList, "a/b".toList] := by
  refine ⟨⟨"ab".toList, ?_, "ab".toList, ?_⟩, ⟨"a/b".toList, ?_, "a/b".toList, ?_⟩⟩ <;> decide

end Catalogue

end InterviewPlan
