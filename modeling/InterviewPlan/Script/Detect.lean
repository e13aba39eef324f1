import InterviewPlan.Text.Basic

/-!
# Recognising the order block

A block is recognised by its identifier, by a banner in its text or label, or by a phrase in its
label.  The case of ASCII letters does not matter.

## Main definitions

* `Detect.hasBanner`: `interview order` between runs of decorative characters
* `Detect.hasPhrase`: `interview order` on its own
* `Detect.isOrder`: the decision for a block
-/

namespace InterviewPlan

namespace Detect

/-- The characters that frame a banner. -/
def isDecoration (c : Char) : Bool := c == '#' || c == '=' || c == '*' || c == '-'

/-- The characters that separate the words of a banner. -/
def isWordGap (c : Char) : Bool := Text.isBlank c || c == '_' || c == '-'

/-- Whether three decorative characters stand at the front; what follows them is the result. -/
def afterDecoration? : Text → Option Text
  | a :: b :: c :: r => if [a, b, c].all isDecoration then some r else none
  | _ => none

/-- What follows `interview`, a gap of at least one of the characters, and `order`. -/
def afterTitle? (isGap : Char → Bool) (t : Text) : Option Text := do
  let t ← Text.afterIgnoringCase? "interview".toList t
  if t.head?.any isGap then Text.afterIgnoringCase? "order".toList (t.dropWhile isGap) else none

/-- Whether a banner begins at the front, at the last three characters of its first run. -/
def startsBanner (t : Text) : Bool :=
  (do
    let t ← afterDecoration? t
    let t ← afterTitle? isWordGap (Text.trimStart t)
    afterDecoration? (Text.trimStart t)).isSome

/-- Whether the text contains a banner. -/
def hasBanner (t : Text) : Bool := (Text.suffixes t).any startsBanner

/-- Whether the text contains the phrase. -/
def hasPhrase (t : Text) : Bool :=
  (Text.suffixes t).any fun s => (afterTitle? Text.isBlank s).isSome

/-- The part of an identifier that marks the order block. -/
def idMarker : Text := "interview_order".toList

/-- Whether a block with this text, identifier and label is the order block. -/
def isOrder (block id : Text) (label : Option Text) : Bool :=
  Text.occursIn idMarker (Text.lower id) || hasBanner block ||
    label.any fun l => hasBanner l || hasPhrase l

end Detect

end InterviewPlan
