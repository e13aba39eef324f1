import InterviewPlan.Document.BlockType
import InterviewPlan.Document.Segment
import InterviewPlan.Plan.Codec
import InterviewPlan.Script.Extract
import InterviewPlan.Yaml.Reader

/-!
# Analysing documents

A segment that reads as YAML is a block.  The analysis of a block tells its type, its label, and
whether it is the order block; an order block carries its plan.  A document is analysed only if all
its segments can be read.

The functions take the reader of YAML as an argument, so that what they do with its answers can be
said for every reader.  A reader may say in its own words why it fails, and the error repeats them.

## Main definitions

* `Block`: the analysis of one block
* `Document.analyzeSegment`, `Document.analyze`: segments and documents
* `Document.Unreadable`: the segment that cannot be read, as an error
-/

namespace InterviewPlan

/-- The analysis of a block. -/
structure Block where
  /-- The type and the position. -/
  id : Text
  type : Text
  label : Text
  language : Language
  position : Nat
  /-- The lines of the order code that are neither blank nor comments, without outer blanks. -/
  orderItems : List Text
  isMandatory : Bool
  isOrder : Bool
  /-- The plan of an order block, when one can be taken out of it. -/
  plan : Option Plan
  span : Span

/-- The analysis as JSON.  Order items are left out where there are none, and so is the plan. -/
def Block.toJson (b : Block) : Json :=
  let items := if b.orderItems.isEmpty then [] else [("order_items", .arr (b.orderItems.map .str))]
  let plan := b.plan.toList.map fun plan => ("order", plan.toJson)
  .object ([("id", .str b.id), ("type", .str b.type), ("label", .str b.label),
      ("language", .str b.language.name), ("position", .int b.position)]
    ++ items ++ [("isMandatory", .bool b.isMandatory), ("isOrder", .bool b.isOrder)] ++ plan)

namespace Document

/-- A segment that is not valid YAML. -/
structure Unreadable where
  position : Nat
  span : Span
  /-- What the reader of YAML says about it. -/
  reason : Option Text
deriving DecidableEq

/-- The wording of the error. -/
def Unreadable.message (e : Unreadable) : Text :=
  Text.withReason ("Failed to parse YAML segment at index ".toList ++ Text.ofNat e.position)
    e.reason

/-- A reader of YAML: the value of a text. -/
abbrev YamlReader := Text.Source Yaml.Value

/-- The mapping of a segment; any other value counts as an empty one. -/
def blockMapping : Yaml.Value → Yaml.Mapping
  | .mapping entries => entries
  | _ => []

/-- The lines of a script that are neither blank nor comments, without outer blanks. -/
def orderItems (code : Text) : List Text :=
  ((Text.lines code).map Text.trim).filter fun t => !t.isEmpty && !Script.isComment t

/-- The nested order block of a block. -/
def nestedOrder? (block : Yaml.Mapping) : Option Yaml.Mapping :=
  (block.get? BlockType.orderKey).bind Yaml.Value.mapping?

/-- The identifier of the block at a position. -/
def blockId (type : Text) (position : Nat) : Text := type ++ '-' :: Text.ofNat position

/-- The analysis of a segment whose mapping is known.  A nested order block has its own code and
its own mandatory flag. -/
def blockOfMapping (segment : Segment) (block : Yaml.Mapping) : Block :=
  let type := BlockType.ofMapping block
  let id := blockId type segment.position
  let label := BlockType.label type block
  let source := (nestedOrder? block).getD block
  let declaredId := ((block.get? "id".toList).bind Yaml.Value.text?).getD id
  -- the banner is a comment, so that the text is looked at as well as the mapping
  let isOrder := (nestedOrder? block).isSome || Detect.isOrder segment.text declaredId (some label)
  let code := (source.get? "code".toList).bind Yaml.Value.text?
  { id
    type
    label := if isOrder then BlockType.orderLabel else label
    language := BlockType.language type
    position := segment.position
    orderItems := if isOrder then (code.map orderItems).getD [] else []
    isMandatory := isTruthy (source.get? "mandatory".toList)
    isOrder
    plan := if isOrder then Script.extract segment.text else none
    span := segment.span }

/-- The analysis of a segment. -/
def analyzeSegment (read : YamlReader) (segment : Segment) : Except Unreadable Block :=
  match read segment.text with
  | .ok value => .ok (blockOfMapping segment (blockMapping value))
  | .error reason => .error ⟨segment.position, segment.span, reason⟩

/-- The analysis of every block of a document, or the error of the first segment that cannot be
read. -/
def analyze (read : YamlReader) (document : Text) : Except Unreadable (List Block) :=
  (segments document).mapM (analyzeSegment read)

end Document

end InterviewPlan
