import InterviewPlan.Script.Block
import InterviewPlan.Script.Detect

/-!
# Taking a plan out of a block

A block holds its script under a `code:` header.  The first header at the left margin that stands
alone or with an indicator of literal text is tried first; the first header at any depth, whatever
follows it, is tried second.  The lines of these three kinds are delimited by line feeds alone, so
that a carriage return before one is part of the line.

## Main definitions

* `Extract.id?`, `Extract.mandatory?`: the values of the first `id:` and `mandatory:` lines
* `Extract.payload?`: the lines of the script
* `Script.extract`: the plan of a block
* `Script.extractOrder`: the plan of a block that is recognised as the order block
-/

namespace InterviewPlan

namespace Extract

/-- What follows a key and its blanks in a line that may be indented. -/
def afterKey? (key line : Text) : Option Text :=
  (key.isPrefixOf? (line.dropWhile Text.isIndent)).map (·.dropWhile Text.isIndent)

/-- The value of an `id:` line: what begins with a visible character, up to blanks and tabs. -/
def idValue? (line : Text) : Option Text := do
  let value ← afterKey? "id:".toList line
  if value.head?.any (!Text.isBlank ·) then some (Text.dropEndWhile Text.isIndent value) else none

/-- The identifier of a block: the first `id:` value without quotation marks and outer blanks. -/
def id? (block : Text) : Option Text := do
  let value ← (Text.rawLines block).findSome? idValue?
  let id := Text.trim (Text.trimMatches Text.isQuotationMark value)
  if id.isEmpty then none else some id

/-- The identifier of a block without one. -/
def fallbackId : Text := "interview_order".toList

/-- The value of a `mandatory:` line: one word. -/
def mandatoryValue? (line : Text) : Option Text := do
  let value ← afterKey? "mandatory:".toList line
  let word := value.takeWhile (!Text.isBlank ·)
  if word.isEmpty || !(value.drop word.length).all Text.isIndent then none else some word

/-- The spellings of truth. -/
def trueWords : List Text := ["true".toList, "yes".toList, "on".toList, "1".toList]

/-- The spellings of falsehood. -/
def falseWords : List Text := ["false".toList, "no".toList, "off".toList, "0".toList]

/-- The truth value of the first `mandatory:` line, if it is readable. -/
def mandatory? (block : Text) : Option Bool := do
  let value ← (Text.rawLines block).findSome? mandatoryValue?
  let word := Text.lower (Text.trimMatches Text.isQuotationMark value)
  if trueWords.contains word then some true
  else if falseWords.contains word then some false
  else none

/-! ### The lines of the script -/

/-- Whether a line is a `code:` header at the left margin, alone or with an indicator. -/
def isStrictHeader (line : Text) : Bool :=
  match "code:".toList.isPrefixOf? line with
  | none => false
  | some r =>
    let r := match r.dropWhile Text.isIndent with
      -- a sign belongs to the indicator only right behind the bar
      | '|' :: '-' :: r => r
      | '|' :: '+' :: r => r
      | '|' :: r => r
      | r => r
    r.all Text.isIndent

/-- Whether a line is a `code:` header at any depth. -/
def isHeader (line : Text) : Bool := "code:".toList.isPrefixOf (line.dropWhile Text.isIndent)

/-- The number of blanks and tabs that indent a line. -/
def indentOf (line : Text) : Nat := Text.indentWidth Text.isIndent line

/-- The first header of a kind and the lines below it. -/
def below? (isHead : Text → Bool) (block : Text) : Option (Text × List Text) :=
  match (Text.fullLines block).dropWhile (fun line => !isHead (Text.dropLineFeed line)) with
  | header :: rest => some (Text.dropLineFeed header, rest.map Text.dropEnding)
  | [] => none

/-- The lines as a payload, unless all of them are blank. -/
def withContent? (lines : List Text) : Option (List Text) :=
  if lines.all Text.isBlankText then none else some lines

/-- The lines below the first header at the left margin, as long as they are blank or indented. -/
def strictPayload? (block : Text) : Option (List Text) := do
  let (_, rest) ← below? isStrictHeader block
  withContent? (rest.takeWhile fun line => Text.isBlankText line || line.head?.any Text.isIndent)

/-- The lines below the first header at any depth, as long as they are blank or indented further
than the header. -/
def lenientPayload? (block : Text) : Option (List Text) := do
  let (header, rest) ← below? isHeader block
  withContent? (rest.takeWhile fun line => Text.isBlankText line || indentOf header < indentOf line)

/-- The lines of the script of a block. -/
def payload? (block : Text) : Option (List Text) :=
  (strictPayload? block).or (lenientPayload? block)

/-- The least indentation of a line that is not blank. -/
def sharedIndent (lines : List Text) : Nat :=
  (((lines.filter (!Text.isBlankText ·)).map indentOf).min?).getD 0

/-- The lines without the indentation that they share. -/
def dedent (lines : List Text) : List Text := lines.map (·.drop (sharedIndent lines))

end Extract

namespace Script

/-- The plan of a block.  It counts as mandatory whatever the block says; only a block without a
script has none. -/
def extract (block : Text) : Option Plan := do
  let payload ← Extract.payload? block
  -- without the indentation that is shared, the top level stands at the margin
  return ⟨(Extract.id? block).getD Extract.fallbackId, true,
    (readBlock (Extract.dedent payload) 0 0).1⟩

/-- The plan of a block, if it is recognised as the order block. -/
def extractOrder (block id : Text) (label : Option Text) : Option Plan :=
  if Detect.isOrder block id label then extract block else none

end Script

end InterviewPlan
