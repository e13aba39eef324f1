import InterviewPlan.Text.Basic

/-!
# Characters of a YAML stream

Line feed, carriage return, both together and the next-line control all end a line and count as a
line feed.  The line and paragraph separators end a line too, but stay what they are.

## Main definitions

* `Yaml.isAllowed`: the characters that a stream may hold
* `Yaml.withLineFeeds`: the stream with one spelling of the line feed
* `Yaml.Cursor`: what is left of a stream, with its line and column
-/

namespace InterviewPlan

namespace Yaml

/-- Whether a stream may hold the character: no control characters other than tab and line
endings, and no non-characters at the end of the first plane. -/
def isAllowed (c : Char) : Bool :=
  let n := c.toNat
  n == 0x09 || n == 0x0A || n == 0x0D || (0x20 ≤ n && n ≤ 0x7E) || n == 0x85
    || (0xA0 ≤ n && n ≤ 0xFFFD) || 0x10000 ≤ n

/-- The stream with a line feed for each line ending, the two separators aside. -/
def withLineFeeds : Text → Text
  | [] => []
  | '\r' :: '\n' :: r => '\n' :: withLineFeeds r
  | '\r' :: r => '\n' :: withLineFeeds r
  | '\u0085' :: r => '\n' :: withLineFeeds r
  | c :: r => c :: withLineFeeds r

/-- Whether the character ends a line. -/
def isBreak (c : Char) : Bool := c == '\n' || c == '\u2028' || c == '\u2029'

/-- Spaces and tabs. -/
def isBlank (c : Char) : Bool := c == ' ' || c == '\t'

/-- Characters between words: blanks and line endings. -/
def isGap (c : Char) : Bool := isBlank c || isBreak c

/-- Whether a gap or the end of the stream is next. -/
def atGap (t : Text) : Bool := t.head?.all isGap

/-- The characters of names: ASCII letters, digits, underscore and hyphen. -/
def isNameChar (c : Char) : Bool := c.isAlphanum || c == '_' || c == '-'

/-- Whether the marker, and then a gap or the end, is next. -/
def atMarker (marker : Text) (t : Text) : Bool := (marker.isPrefixOf? t).any atGap

/-- Whether the marker of the beginning or of the end of a document is next. -/
def atDocumentMarker (t : Text) : Bool :=
  atMarker ['-', '-', '-'] t || atMarker ['.', '.', '.'] t

/-- A place in a stream: what is left, and the number of lines, of characters in the line and of
characters in all before it. -/
structure Cursor where
  rest : Text
  line : Nat
  column : Nat
  index : Nat

namespace Cursor

/-- The beginning of a stream. -/
def start (stream : Text) : Cursor := ⟨stream, 0, 0, 0⟩

/-- Past `n` characters. -/
def skip : Nat → Cursor → Cursor
  | 0, c => c
  | n + 1, ⟨x :: r, line, column, index⟩ =>
    skip n (if isBreak x then ⟨r, line + 1, 0, index + 1⟩ else ⟨r, line, column + 1, index + 1⟩)
  | _ + 1, c => c

/-- At the place where `rest` is left. -/
def skipTo (rest : Text) (c : Cursor) : Cursor := c.skip (c.rest.length - rest.length)

end Cursor

end Yaml

end InterviewPlan
