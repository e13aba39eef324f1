import InterviewPlan.Text.Lines
import InterviewPlan.Yaml.Value

/-!
# Types and labels of blocks

A block of an interview document is a mapping.  Its type is the first known key that it has, and
its label tells an outline what it is.

## Main definitions

* `BlockType.known`: the keys that are types, in the order in which they are tried
* `BlockType.ofMapping`: the type of a block
* `BlockType.label`: the label of a block of a type
* `Language`: the language of the contents of a block
* `Document.isTruthy`: what counts as a true value
-/

namespace InterviewPlan

/-- The language of the contents of a block. -/
inductive Language where
  | yaml
  | python
  | markdown
deriving DecidableEq

/-- The name of a language. -/
def Language.name : Language → Text
  | yaml => "yaml".toList
  | python => "python".toList
  | markdown => "markdown".toList

namespace BlockType

/-- The known types, in the order in which they are tried. -/
def known : List Text :=
  ["question", "code", "objects", "features", "auto terms", "template", "attachment",
    "attachments", "table", "translations", "include", "default screen parts", "metadata",
    "modules", "imports", "sections", "interview help", "def", "default validation messages",
    "machine learning storage", "initial", "event", "comment", "variable name", "data",
    "data from code", "reset", "on change", "image sets", "images", "order"].map String.toList

/-- The type of a block without a known key. -/
def fallback : Text := "code".toList

/-- The type of a block: the first known type that is one of its keys. -/
def ofMapping (block : Yaml.Mapping) : Text := (known.find? block.hasKey).getD fallback

/-- The language of a type. -/
def language (type : Text) : Language :=
  if type = "code".toList then .python
  else if type = "def".toList then .markdown
  else .yaml

/-- The label of an order block. -/
def orderLabel : Text := "Interview Order".toList

/-- The key of a nested order block. -/
def orderKey : Text := "interview_order".toList

/-- A scalar as a label; what is empty or false is none. -/
def scalarLabel? : Yaml.Value → Option Text
  | .str t => if t.isEmpty then none else some t
  | .number n => some n.render
  | .bool true => some "True".toList
  | _ => none

/-- The first line of a text; an empty text has an empty one. -/
def firstLine (t : Text) : Text := (Text.lines t).head?.getD []

/-- The most characters of a line of code that make up a label. -/
def codeLabelLength : Nat := 24

/-- The label of a block by its type alone. -/
def typeLabel (type : Text) (block : Yaml.Mapping) : Text :=
  let member (key : String) := block.get? key.toList
  let inner (key name : String) := (member key).bind (Yaml.Value.get? name.toList)
  if type = "metadata".toList then
    ((inner "metadata" "title").bind scalarLabel?).getD "Metadata".toList
  else if type = "question".toList then
    (((member "question").bind Yaml.Value.text?).map firstLine).getD "Question".toList
  else if type = "code".toList then
    match (member "code").bind Yaml.Value.text? with
    | some (c :: r) => (firstLine (c :: r)).take codeLabelLength
    | _ => "Code".toList
  else if type = "attachment".toList then
    ((inner "attachment" "name").bind scalarLabel?).getD "Attachment".toList
  else if type = "event".toList then
    ((member "event").bind scalarLabel?).getD "Event".toList
  else if type = "objects".toList then "Objects".toList
  else type

/-- The label of a block of a type.  A block that nests an order block is labelled as one. -/
def label (type : Text) (block : Yaml.Mapping) : Text :=
  if ((block.get? orderKey).bind Yaml.Value.mapping?).isSome then orderLabel
  else typeLabel type block

end BlockType

namespace Document

/-- The texts that count as true, without outer blanks and in lower case. -/
def truthyWords : List Text := ["true".toList, "yes".toList, "1".toList, "on".toList]

/-- Whether a value counts as true: the truth value, a text that says so, or a number other than
zero. -/
def isTruthy : Option Yaml.Value → Bool
  | some (.bool b) => b
  | some (.str t) => truthyWords.contains (Text.lower (Text.trim t))
  | some (.number n) => n.isNonzero
  | _ => false

end Document

end InterviewPlan
