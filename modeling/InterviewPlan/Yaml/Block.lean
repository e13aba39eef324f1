import InterviewPlan.Yaml.Source

/-!
# Block scalars

A block scalar stands in lines below its header and is indented further than what holds it.  The
header says whether lines are folded, how the end is chomped, and perhaps the indentation;
otherwise the first line that is not empty gives it.

## Main definitions

* `Yaml.BlockHeader`: the indicators of a header
* `Yaml.blockScalar?`: a block scalar from the character after its indicator on
-/

namespace InterviewPlan

namespace Yaml

/-- What becomes of the line endings at the end of a block scalar. -/
inductive Chomping where
  /-- All are dropped. -/
  | strip
  /-- One is kept. -/
  | clip
  /-- All are kept. -/
  | keep
deriving DecidableEq

/-- The indicators of a block scalar: chomping, and by how much it is indented further. -/
structure BlockHeader where
  chomping : Chomping
  increment : Option Nat

/-- The chomping that a character indicates. -/
def chomping? : Char → Option Chomping
  | '+' => some .keep
  | '-' => some .strip
  | _ => none

/-- The increment that a character indicates: a digit other than zero. -/
def increment? (c : Char) : Option Nat :=
  if c.isDigit && c != '0' then some (Text.digitsValue 0 [c]) else none

/-- The indicators of a header, in either order.  A zero is no indentation. -/
def blockHeader? (t : Text) : Option (BlockHeader × Text) :=
  match t with
  | [] => some (⟨.clip, none⟩, [])
  | c :: r =>
    match chomping? c with
    | some chomping =>
      match r with
      | d :: r' =>
        if d.isDigit then (increment? d).map fun n => (⟨chomping, some n⟩, r')
        else some (⟨chomping, none⟩, r)
      | [] => some (⟨chomping, none⟩, r)
    | none =>
      if c.isDigit then do
        let n ← increment? c
        match r.head?.bind chomping? with
        | some chomping => return (⟨chomping, some n⟩, r.tail)
        | none => return (⟨.clip, some n⟩, r)
      else some (⟨.clip, none⟩, t)

/-- The text after the rest of a header line: blanks, perhaps a comment, and the line ending. -/
def afterHeaderLine? (t : Text) : Option Text :=
  let t := t.dropWhile isBlank
  let t := if t.head? = some '#' then t.dropWhile (!isBreak ·) else t
  match t with
  | [] => some []
  | c :: r => if isBreak c then some r else none

/-- Empty lines before a line of the scalar: their endings, the greatest column reached, and the
column and the text at which the next line goes on. -/
structure Lead where
  breaks : Text
  widest : Nat
  column : Nat
  rest : Text

/-- Pass the indentation of lines as long as they are empty.  Without an indentation every blank
is passed.  A tab must not stand in the indentation. -/
def lead? (indent : Option Nat) (widest : Nat) (t : Text) : Option Lead :=
  let spaces := (t.takeWhile (· == ' ')).length
  let column := match indent with
    | some n => min n spaces
    | none => spaces
  let rest := t.drop column
  let within := indent.all (column < ·)
  let widest := max widest column
  if within && rest.head? = some '\t' then none
  else if rest.head?.any isBreak then
    if (rest.drop 1).length < t.length then
      (lead? indent widest (rest.drop 1)).map fun lead =>
        { lead with breaks := rest.take 1 ++ lead.breaks }
    else none
  else some ⟨[], widest, column, rest⟩
termination_by t.length

/-- A line of a block scalar, its ending, and the endings of the empty lines after it. -/
structure BlockLine where
  content : Text
  ending : Text
  breaks : Text

/-- The lines of a block scalar of an indentation, from the content of the first one on. -/
def blockLines? (indent : Nat) (t : Text) : Option (List BlockLine × Text) :=
  let content := t.takeWhile (!isBreak ·)
  let after := t.dropWhile (!isBreak ·)
  match lead? (some indent) 0 (after.drop 1) with
  | none => none
  | some lead =>
    let line : BlockLine := ⟨content, after.take 1, lead.breaks⟩
    if lead.column = indent && !lead.rest.isEmpty then
      if lead.rest.length < t.length then
        (blockLines? indent lead.rest).map fun (lines, rest) => (line :: lines, rest)
      else none
    else some ([line], lead.rest)
termination_by t.length

/-- What the endings between two lines become.  When lines are folded, one line feed between lines
that do not begin with a blank becomes a blank, and of several the first is dropped. -/
def joined (folding : Bool) (line next : BlockLine) : Text :=
  let startsBlank (l : BlockLine) : Bool := l.content.head?.any isBlank
  if folding && line.ending.head? = some '\n' && !startsBlank line && !startsBlank next then
    if line.breaks.isEmpty then [' '] else line.breaks
  else line.ending ++ line.breaks

/-- The endings that remain after the last line. -/
def chomped (chomping : Chomping) (line : BlockLine) : Text :=
  match chomping with
  | .strip => []
  | .clip => line.ending
  | .keep => line.ending ++ line.breaks

/-- The text of the lines of a block scalar. -/
def blockText (folding : Bool) (chomping : Chomping) : List BlockLine → Text
  | [] => []
  | [line] => line.content ++ chomped chomping line
  | line :: next :: rest =>
    line.content ++ joined folding line next ++ blockText folding chomping (next :: rest)

/-- A block scalar inside something at the indentation `parent`, which is `-1` at the top. -/
def blockScalar? (folding : Bool) (parent : Int) (t : Text) : Option (Text × Text) := do
  let (header, t) ← blockHeader? t
  let t ← afterHeaderLine? t
  let given := header.increment.map fun n => (max parent 0).toNat + n
  let lead ← lead? given 0 t
  -- empty lines that reach further than the first line with content count too
  let indent := given.getD (max lead.widest (max (parent + 1) 1).toNat)
  if lead.column = indent && !lead.rest.isEmpty then
    let (lines, rest) ← blockLines? indent lead.rest
    return (lead.breaks ++ blockText folding header.chomping lines, rest)
  else return (if header.chomping = .keep then lead.breaks else [], lead.rest)

end Yaml

end InterviewPlan
