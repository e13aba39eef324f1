import InterviewPlan.Text.Basic

/-!
# Parts of a statement

The recognisers of statements are built from a few parts.  Where a part can be read in several
ways, the first way that lets the rest of the statement be read is taken: blanks take as many
characters as they can, and an expression takes as few.

## Main definitions

* `Pattern.wordAfterBlanks?`: at least one blank and a word
* `Pattern.clause?`: at least one blank and an expression up to the end
* `Pattern.quoted?`: text in quotation marks with escapes
* `Pattern.loopHeader?`: an item and the expression it runs over
* `Pattern.guardedFlag?`: the flag of a condition that guards a step
-/

namespace InterviewPlan

namespace Pattern

/-- What follows at least one blank and a word. -/
def wordAfterBlanks? (word t : Text) : Option Text :=
  if t.head?.any Text.isBlank then word.isPrefixOf? (Text.trimStart t) else none

/-- The expression after at least one blank, up to blanks at the end.  It stays on one line and is
not empty: among blanks alone it is the last blank that is no line feed and has another before
it. -/
def clause? (t : Text) : Option Text :=
  if t.head?.any Text.isBlank then
    let body := Text.trim t
    if body.isEmpty then (t.tail.reverse.find? (· ≠ '\n')).map ([·])
    else if body.contains '\n' then none
    else some body
  else none

/-- The text before a closing quotation mark, without the backslashes that escape, and what
follows the mark.  A line feed cannot be escaped. -/
def quotedBody? (mark : Char) : Text → Option (Text × Text)
  | [] => none
  | '\\' :: c :: r =>
    if c = '\n' then none else (quotedBody? mark r).map fun (body, rest) => (c :: body, rest)
  | c :: r =>
    if c = mark then some ([], r)
    -- a backslash with nothing behind it
    else if c = '\\' then none
    else (quotedBody? mark r).map fun (body, rest) => (c :: body, rest)

/-- A text in quotation marks of either kind and what follows it. -/
def quoted? : Text → Option (Text × Text)
  | '"' :: r => quotedBody? '"' r
  | '\'' :: r => quotedBody? '\'' r
  | _ => none

/-- An item, taken as short as possible after the characters in `taken` (the last one first), and
the expression after `in`. -/
def itemAndRange? (taken : Text) : Text → Option (Text × Text)
  | [] => none
  | c :: r =>
    if c = '\n' then none
    else match (wordAfterBlanks? "in".toList r).bind clause? with
      | some range => some ((c :: taken).reverse, range)
      | none => itemAndRange? (c :: taken) r

/-- The item and the range of a loop, from what stands between `for` and the colon.  The item
begins after all blanks, or else after fewer of them, but at least one. -/
def loopHeader? (t : Text) : Option (Text × Text) :=
  let blanks := (t.takeWhile Text.isBlank).length
  -- the numbers descend, so that the most blanks are tried first
  (List.range blanks).reverse.findSome? fun n => itemAndRange? [] (t.drop (n + 1))

/-- What follows the closing parenthesis of a call whose argument is in the given quotation
marks. -/
def afterQuotedArgument? (mark : Char) (t : Text) : Option Text :=
  match Text.trimStart t with
  | c :: r =>
    if c = mark then
      match Text.trimStart (r.dropWhile (· ≠ mark)).tail with
      | ')' :: rest => if r.contains mark then some rest else none
      | _ => none
    else none
  | [] => none

/-- What follows the first closing parenthesis. -/
def afterParenthesis? (t : Text) : Option Text :=
  match t.dropWhile (· ≠ ')') with
  | _ :: rest => some rest
  | [] => none

/-- The flag in what follows the call of a guard: `or not` and an expression. -/
def guardTail? (t : Text) : Option Text := do
  let t ← wordAfterBlanks? "or".toList t
  let t ← wordAfterBlanks? "not".toList t
  clause? t

/-- The flag `Y` of a condition `not defined(X) or not Y`.  The argument `X` is read as quoted text
first, and as anything up to a parenthesis if that does not lead to a flag. -/
def guardedFlag? (cond : Text) : Option Text := do
  let t ← "not".toList.isPrefixOf? cond
  let t ← wordAfterBlanks? "defined(".toList t
  [afterQuotedArgument? '"' t, afterQuotedArgument? '\'' t, afterParenthesis? t].findSome?
    (·.bind guardTail?)

end Pattern

end InterviewPlan
