import InterviewPlan.Yaml.Node
import InterviewPlan.Yaml.Scalar

/-!
# Reading YAML

The node of a stream becomes a value.  Aliases are replaced by what they name; how often is
limited, and so is the nesting that results.

An anchor is numbered by how many different names stand before it.  So an anchor that takes a name
again shares its number with the next new name, and of the anchors of one number the last one is
meant.

## Main definitions

* `Yaml.Node.numbered?`: the node with numbers for the names of its anchors
* `Yaml.Node.value?`: the value of a node
* `Yaml.parse`, `Yaml.parseMapping`: a whole stream as a value or as a mapping
-/

namespace InterviewPlan

namespace Yaml

namespace Node

/-! ### Anchors -/

/-- The names seen so far and the number each stands for. -/
abbrev Names := List (Text × Nat)

/-- Give a name the number of different names so far. -/
def define (name : Text) (names : Names) : Names :=
  if (names.lookup name).isSome then
    names.map fun (n, i) => if n = name then (n, names.length) else (n, i)
  else names ++ [(name, names.length)]

/-- The properties with the number of their anchor. -/
def numberProperties (p : Properties Text) : StateT Names Option (Properties Nat) := do
  match p.anchor with
  | none => return ⟨none, p.tag⟩
  | some name =>
    let number := (← get).length
    modify (define name)
    return ⟨some number, p.tag⟩

mutual

/-- The node with numbers for names; an alias needs an anchor of its name before it. -/
def numbered? : Node Text → StateT Names Option (Node Nat)
  | aliasOf name => do return aliasOf (← (← get).lookup name)
  | scalar p text plain => do return scalar (← numberProperties p) text plain
  | sequence p items => do
    let p ← numberProperties p
    return sequence p (← numberedItems? items)
  | mapping p entries => do
    let p ← numberProperties p
    return mapping p (← numberedEntries? entries)

/-- The items of a sequence with numbers. -/
def numberedItems? : List (Node Text) → StateT Names Option (List (Node Nat))
  | [] => return []
  | node :: rest => do
    let node ← node.numbered?
    return node :: (← numberedItems? rest)

/-- The entries of a mapping with numbers. -/
def numberedEntries? :
    List (Node Text × Node Text) → StateT Names Option (List (Node Nat × Node Nat))
  | [] => return []
  | (key, value) :: rest => do
    let key ← key.numbered?
    let value ← value.numbered?
    return (key, value) :: (← numberedEntries? rest)

end

mutual

/-- The anchored nodes inside a node, in the order of their beginnings. -/
def anchored : Node Nat → List (Nat × Node Nat)
  | aliasOf _ => []
  | scalar p text plain => own p (scalar p text plain)
  | sequence p items => own p (sequence p items) ++ anchoredItems items
  | mapping p entries => own p (mapping p entries) ++ anchoredEntries entries
where
  /-- A node under its anchor. -/
  own (p : Properties Nat) (node : Node Nat) : List (Nat × Node Nat) :=
    p.anchor.toList.map (·, node)

/-- The anchored nodes inside the items of a sequence. -/
def anchoredItems : List (Node Nat) → List (Nat × Node Nat)
  | [] => []
  | node :: rest => node.anchored ++ anchoredItems rest

/-- The anchored nodes inside the entries of a mapping. -/
def anchoredEntries : List (Node Nat × Node Nat) → List (Nat × Node Nat)
  | [] => []
  | (key, value) :: rest => key.anchored ++ value.anchored ++ anchoredEntries rest

end

/-! ### Values -/

mutual

/-- How many scalars, aliases, and beginnings and ends of collections make up a node. -/
def eventCount : Node Nat → Nat
  | sequence _ items => 2 + itemCount items
  | mapping _ entries => 2 + entryCount entries
  | _ => 1

/-- The same for the items of a sequence. -/
def itemCount : List (Node Nat) → Nat
  | [] => 0
  | node :: rest => node.eventCount + itemCount rest

/-- The same for the entries of a mapping. -/
def entryCount : List (Node Nat × Node Nat) → Nat
  | [] => 0
  | (key, value) :: rest => key.eventCount + value.eventCount + entryCount rest

end

/-- Reading values while a number of aliases may still be replaced. -/
abbrev Expansion := StateT Nat Option

/-- The node that an alias names; any other node stands for itself. -/
def target (anchors : List (Nat × Node Nat)) : Node Nat → Expansion (Node Nat)
  | aliasOf name => do
    match ← get with
    | 0 => failure
    | left + 1 =>
      set left
      anchors.lookup name
  | node => return node

/-- A collection under its tag, if that wraps values. -/
def wrap (tag : Option Text) (v : Value) : Value :=
  match tag.bind wrapper? with
  | some name => .tagged name v
  | none => v

/-- The value of a node in which `depth` collections may still be nested. -/
def value? (anchors : List (Nat × Node Nat)) (depth : Nat) (node : Node Nat) : Expansion Value := do
  match ← target anchors node, depth with
  | scalar p text plain, _ => scalarValue? p.tag text plain
  | sequence p items, depth + 1 => return wrap p.tag (.sequence (← items.mapM (value? anchors depth)))
  | mapping p entries, depth + 1 =>
    let entries ← entries.mapM fun (key, value) => do
      let key ← value? anchors depth key
      return (key, ← value? anchors depth value)
    if Mapping.keysDiffer entries then return wrap p.tag (.mapping entries) else failure
  | _, _ => failure

/-- The value of the node of a whole stream. -/
def wholeValue? (node : Node Text) : Option Value := do
  let (node, _) ← node.numbered?.run []
  let (value, _) ← (value? node.anchored.reverse depthLimit node).run (100 * node.eventCount)
  return value

end Node

/-- A stream as a value; an empty stream is a null. -/
def parse (stream : Text) : Option Value := do
  match ← Node.ofTokens? (← Token.scan? stream) with
  | none => return .null
  | some node => node.wholeValue?

/-- A stream as a mapping, whose own tag does not matter.  An empty stream is an empty mapping, and
so is an empty plain scalar. -/
def parseMapping (stream : Text) : Option Mapping := do
  match ← Node.ofTokens? (← Token.scan? stream) with
  | none => return []
  | some (.scalar _ [] true) => return []
  | some (.mapping properties entries) =>
    (← (Node.mapping { properties with tag := none } entries).wholeValue?).mapping?
  | some _ => none

end Yaml

end InterviewPlan
