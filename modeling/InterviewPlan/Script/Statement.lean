import InterviewPlan.Script.Emit
import InterviewPlan.Script.Pattern

/-!
# Statements

A line of a script, without its outer blanks, is one statement.  The forms are tried in a fixed
order, and a line of no other form asks for a value.

## Main definitions

* `Statement`: what a line says
* `Statement.ofText`: the statement of a line
* `Statement.parenDelta`: how many more parentheses a line opens than it closes
-/

namespace InterviewPlan

/-- What a line of a script says on its own. -/
inductive Statement where
  /-- A step that needs no further lines. -/
  | step (s : Step)
  /-- The header of a condition. -/
  | condition (cond : Text)
  /-- The header of a loop. -/
  | repetition (item iter : Text)
  /-- The first line of a call that stores the answers. -/
  | storage

namespace Statement

/-- The section that a navigation call enters. -/
def section? (t : Text) : Option Text := do
  let t ← "nav.set_section(".toList.isPrefixOf? t
  let (name, rest) ← Pattern.quoted? (Text.trimStart t)
  if Text.trimStart rest = [')'] then some name else none

/-- A decimal numeral: digits, and perhaps a point and digits. -/
def decimal? (t : Text) : Option (Decimal × Text) :=
  let whole := t.takeWhile Char.isDigit
  let rest := t.dropWhile Char.isDigit
  if whole.isEmpty then none
  else
    let fraction := match rest with
      | '.' :: r => r.takeWhile Char.isDigit
      | _ => []
    let n := Text.digitsValue (Text.digitsValue 0 whole) fraction
    some (⟨n, -(fraction.length : Int)⟩,
      if fraction.isEmpty then rest else rest.tail.dropWhile Char.isDigit)

/-- The number that a progress call sets. -/
def progress? (t : Text) : Option Binary := do
  let t ← "set_progress(".toList.isPrefixOf? t
  let (negative, t) : Bool × Text := match Text.trimStart t with
    | '-' :: r => (true, r)
    | t => (false, t)
  let (value, rest) ← decimal? t
  if Text.trimStart rest = [')'] then some (.ofDecimal negative value) else none

/-- The list that a call gathers. -/
def gathered? (t : Text) : Option Text := do
  let t ← Text.beforeEnd? [')'] t
  let list ← Text.beforeEnd? ".gather(".toList (Text.trimEnd t)
  if list.isEmpty || list.contains '\n' then none else some (Text.trim list)

/-- The condition of a header. -/
def condition? (t : Text) : Option Text := do
  let t ← "if".toList.isPrefixOf? t
  Pattern.clause? (← Text.beforeEnd? [':'] t)

/-- The item and the range of a loop header. -/
def repetition? (t : Text) : Option (Text × Text) := do
  let t ← "for".toList.isPrefixOf? t
  Pattern.loopHeader? (← Text.beforeEnd? [':'] t)

/-- The statement of a line without its outer blanks. -/
def ofText (t : Text) : Statement :=
  match section? t with
  | some name => .step (.enter name)
  | none =>
  match progress? t with
  | some value => .step (.progress (.number value))
  | none =>
  match gathered? t with
  | some list => .step (.gather list)
  | none =>
  match condition? t with
  | some cond => .condition cond
  | none =>
  match repetition? t with
  | some (item, iter) => .repetition item iter
  | none =>
  if Script.snapshotOpening.isPrefixOf t then .storage else .step (.ask t)

/-- Parentheses opened less parentheses closed, outside quoted text and before a comment.
`mark` is the quotation mark of the text that is open.  The count has no bound; a counter of 32 bits
has the same value while the text has fewer than `2 ^ 31` parentheses. -/
def parenDelta (mark : Option Char) : Text → Int
  | [] => 0
  | c :: r =>
    match mark with
    | some q =>
      if c = '\\' then
        match r with
        | _ :: r => parenDelta mark r
        | [] => 0
      else if c = q then parenDelta none r
      else parenDelta mark r
    | none =>
      if c = '"' || c = '\'' then parenDelta (some c) r
      else if c = '(' then 1 + parenDelta none r
      else if c = ')' then parenDelta none r - 1
      else if c = '#' then 0
      else parenDelta none r

/-- Whether a line assigns to a flag: the flag, one equals sign, and not a second one. -/
def assigns (flag line : Text) : Bool :=
  match (flag.isPrefixOf? line).map Text.trimStart with
  | some ('=' :: '=' :: _) => false
  | some ('=' :: _) => true
  | _ => false

end Statement

end InterviewPlan
