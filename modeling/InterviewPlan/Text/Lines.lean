import InterviewPlan.Text.Basic

/-!
# Lines

A line feed ends a line.  A text that ends in a line feed has no further empty line, and a
carriage return is part of the line ending only where a line feed follows it.

## Main definitions

* `Text.fullLines`: the lines with their endings, which join to the text again
* `Text.rawLines`: the lines without the line feed
* `Text.lines`: the lines without their endings
-/

namespace InterviewPlan

namespace Text

/-- The lines of a text, each with its line feed. -/
def fullLines : Text → List Text
  | [] => []
  | c :: r =>
    if c = '\n' then ['\n'] :: fullLines r
    else match fullLines r with
      | [] => [[c]]
      | line :: more => (c :: line) :: more

/-- Nothing is lost when a text is cut into its lines. -/
theorem flatten_fullLines (t : Text) : (fullLines t).flatten = t := by
  induction t with
  | nil => rfl
  | cons c r ih =>
    unfold fullLines
    split
    · next h => simp [h, ih]
    · split
      · next h => simp [h] at ih; simp [← ih]
      · next h => simp [h] at ih; simp [ih]

/-- A line without its line feed. -/
def dropLineFeed (line : Text) : Text :=
  match line.reverse with
  | '\n' :: r => r.reverse
  | _ => line

/-- A line without its ending: a line feed and at most one carriage return before it. -/
def dropEnding (line : Text) : Text :=
  match line.reverse with
  | '\n' :: '\r' :: r => r.reverse
  | '\n' :: r => r.reverse
  | _ => line

/-- The lines of a text, without the line feed that ends them. -/
def rawLines (t : Text) : List Text := (fullLines t).map dropLineFeed

/-- The lines of a text, without their endings. -/
def lines (t : Text) : List Text := (fullLines t).map dropEnding

/-- Lines joined by line feeds. -/
def unlines (ls : List Text) : Text := joinWith ['\n'] ls

/-- The number of leading characters of a line that satisfy `p`, the width of its indentation. -/
def indentWidth (p : Char → Bool) (line : Text) : Nat := (line.takeWhile p).length

end Text

end InterviewPlan
