import InterviewPlan.Text.Lines

/-!
# Segments of a document

An interview document is cut at its separator lines, the lines that are `---` without outer blanks.
What is left between them, without outer blanks, is a segment, unless nothing is left.

## Main definitions

* `Span`: a range of bytes
* `Segment`: a piece of a document with its place
* `Document.segments`: the segments of a document
-/

namespace InterviewPlan

/-- A range of bytes of a document, from `start` up to but not including `stop`. -/
structure Span where
  start : Nat
  stop : Nat
deriving DecidableEq

/-- A piece of a document: its number among the pieces, its text, and the bytes it takes. -/
structure Segment where
  position : Nat
  text : Text
  span : Span
deriving DecidableEq

namespace Document

/-- Whether a line separates segments. -/
def isSeparator (line : Text) : Bool := Text.trim line = ['-', '-', '-']

/-- What stands between the separator lines, each with the byte at which it begins.  `piece` has
been read since the byte `start`. -/
def pieces (start : Nat) (piece : Text) : List Text → List (Nat × Text)
  | [] => [(start, piece)]
  | line :: rest =>
    if isSeparator line then
      (start, piece) :: pieces (start + Text.byteSize piece + Text.byteSize line) [] rest
    else pieces start (piece ++ line) rest

/-- The text of a piece without outer blanks, and its bytes; none for a piece of blanks. -/
def trimmed? (start : Nat) (piece : Text) : Option (Text × Span) :=
  let text := Text.trim piece
  let first := start + Text.byteSize (piece.takeWhile Text.isBlank)
  if text.isEmpty then none else some (text, ⟨first, first + Text.byteSize text⟩)

/-- The segments of a document, in order. -/
def segments (document : Text) : List Segment :=
  let found := (pieces 0 [] (Text.fullLines document)).filterMap fun (start, piece) =>
    trimmed? start piece
  found.mapIdx fun position (text, span) => ⟨position, text, span⟩

end Document

end InterviewPlan
