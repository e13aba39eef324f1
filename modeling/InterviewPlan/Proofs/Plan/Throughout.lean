import InterviewPlan.Plan.Step

/-!
# Steps at every depth

The steps of a plan form a tree: a branch owns the steps of its two sides and a loop those of its
body.  A property of a step and the steps after it holds throughout a list of steps if it holds at
every place of the list and of all lists below it.

## Main definitions

* `Step.blocks`: the lists of steps right below a step
* `Step.Throughout`: a property of all steps, at every depth

## Main results

* `Step.listInduction`: induction over a list of steps and the lists below it
-/

namespace InterviewPlan

namespace Step

/-- The lists of steps right below a step. -/
def blocks : Step → List (List Step)
  | .branch _ yes no => yes :: no.toList
  | .loop _ _ body => [body]
  | _ => []

@[simp] theorem mem_blocks_branch {cond : Text} {yes block : List Step} {no : Option (List Step)} :
    block ∈ (branch cond yes no).blocks ↔ block = yes ∨ no = some block := by
  simp [blocks]

@[simp] theorem mem_blocks_loop {item iter : Text} {body block : List Step} :
    block ∈ (loop item iter body).blocks ↔ block = body := by
  simp [blocks]

/-- What stands below a step is smaller than the step. -/
theorem sizeOf_lt_of_mem_blocks {s : Step} {block : List Step} (h : block ∈ s.blocks) :
    sizeOf block < sizeOf s := by
  cases s with
  | branch cond yes no =>
    rcases mem_blocks_branch.mp h with rfl | rfl
    · rw [branch.sizeOf_spec]
      omega
    · rw [branch.sizeOf_spec, Option.some.sizeOf_spec]
      omega
  | loop item iter body =>
    obtain rfl := mem_blocks_loop.mp h
    rw [loop.sizeOf_spec]
    omega
  | _ => cases h

/-- **Induction over a list of steps**: a step comes with the lists right below it and with the
steps after it. -/
@[elab_as_elim]
theorem listInduction {motive : List Step → Prop} (nil : motive [])
    (cons : ∀ s rest, (∀ block ∈ s.blocks, motive block) → motive rest → motive (s :: rest)) :
    ∀ ns, motive ns
  | [] => nil
  | s :: rest =>
    cons s rest (fun block _ => listInduction nil cons block) (listInduction nil cons rest)
termination_by ns => sizeOf ns
decreasing_by
  · have := sizeOf_lt_of_mem_blocks ‹_›
    rw [List.cons.sizeOf_spec]
    omega
  · rw [List.cons.sizeOf_spec]
    omega

/-- A property of every step together with the steps after it, at every depth. -/
inductive Throughout (p : Step → List Step → Prop) : List Step → Prop
  | nil : Throughout p []
  | cons {s : Step} {rest : List Step} (head : p s rest)
      (below : ∀ block ∈ s.blocks, Throughout p block) (tail : Throughout p rest) :
      Throughout p (s :: rest)

namespace Throughout

variable {p q : Step → List Step → Prop} {s : Step} {rest ns : List Step}

/-- A step with nothing below it. -/
theorem leaf (head : p s rest) (hblocks : s.blocks = []) (tail : Throughout p rest) :
    Throughout p (s :: rest) := by
  refine .cons head ?_ tail
  rw [hblocks]
  exact List.forall_mem_nil _

theorem mono (hpq : ∀ s rest, p s rest → q s rest) (h : Throughout p ns) : Throughout q ns := by
  induction h with
  | nil => exact .nil
  | cons head _ _ below tail => exact .cons (hpq _ _ head) below tail

/-- The first step has the property together with the others. -/
theorem exists_of_mem_head? (h : Throughout p ns) (hs : s ∈ ns.head?) : ∃ rest, p s rest := by
  cases h with
  | nil => cases hs
  | @cons first rest head _ _ =>
    obtain rfl := Option.some.inj hs
    exact ⟨rest, head⟩

/-- Two properties that hold throughout hold together. -/
theorem and (hp : Throughout p ns) (hq : Throughout q ns) :
    Throughout (fun s rest => p s rest ∧ q s rest) ns := by
  induction hp with
  | nil => exact .nil
  | cons head _ _ below tail =>
    cases hq with
    | cons head' below' tail' =>
      exact .cons ⟨head, head'⟩ (fun block hb => below block hb (below' block hb)) (tail tail')

/-- A property that is decided at every place is decided throughout. -/
def decide (p : Step → List Step → Prop) [∀ s rest, Decidable (p s rest)] :
    ∀ ns, Decidable (Throughout p ns)
  | [] => .isTrue .nil
  | s :: rest =>
    -- the membership of a block is kept, as it is what the recursion ends by
    letI := fun block : { block // block ∈ s.blocks } => decide p block.1
    letI := decide p rest
    decidable_of_iff
      (p s rest ∧ (∀ block ∈ s.blocks.attach, Throughout p block.1) ∧ Throughout p rest)
      ⟨fun ⟨head, below, tail⟩ =>
        .cons head (fun block hb => below ⟨block, hb⟩ (List.mem_attach _ _)) tail,
      fun | .cons head below tail => ⟨head, fun block _ => below block.1 block.2, tail⟩⟩
termination_by ns => sizeOf ns
decreasing_by
  · have := sizeOf_lt_of_mem_blocks block.2
    rw [List.cons.sizeOf_spec]
    omega
  · rw [List.cons.sizeOf_spec]
    omega

instance [∀ s rest, Decidable (p s rest)] : Decidable (Throughout p ns) := decide p ns

end Throughout

end Step

end InterviewPlan
