import InterviewPlan.Yaml.Source

/-!
# Plain and quoted scalars

Where such a scalar runs over several lines its lines are folded: one line ending between words
becomes a blank, and of several the first is dropped.

## Main definitions

* `Yaml.folded`: what a gap between words becomes
* `Yaml.plain?`: a plain scalar
* `Yaml.singleQuoted?`, `Yaml.doubleQuoted?`: a scalar after its opening quotation mark
-/

namespace InterviewPlan

namespace Yaml

/-- What the gap between two words becomes.  Without a line ending it stays; else its blanks are
dropped, one line feed alone becomes a blank, and a first line feed before others is dropped. -/
def folded (gap : Text) : Text :=
  match gap.filter isBreak with
  | [] => gap
  | ['\n'] => [' ']
  | '\n' :: more => more
  | breaks => breaks

/-- The part of a gap after its last line ending; the whole gap when there is none. -/
def lastLine (gap : Text) : Text := (gap.reverse.takeWhile (!isBreak ·)).reverse

/-- Whether a gap ends at the beginning of a line. -/
def endsLine (gap : Text) : Bool := gap.getLast?.any isBreak

/-! ### Plain scalars -/

/-- Punctuation of flow collections, which ends a plain scalar inside one. -/
def isFlowPunctuation (c : Char) : Bool :=
  c == ',' || c == '[' || c == ']' || c == '{' || c == '}'

/-- The characters of a plain scalar up to the next gap or the end of the scalar.  Inside a flow
collection a colon must not stand before punctuation. -/
def plainWord? (inFlow : Bool) : Text → Option (Text × Text)
  | [] => some ([], [])
  | c :: r =>
    if isGap c then some ([], c :: r)
    else if inFlow && c == ':' && r.head?.any (fun d => isFlowPunctuation d || d == '?') then none
    else if (c == ':' && atGap r) || (inFlow && isFlowPunctuation c) then some ([], c :: r)
    else (plainWord? inFlow r).map fun (word, rest) => (c :: word, rest)

/-- Whether a tab stands in the indentation of one of the further lines of a gap. -/
def tabInIndentation (indent : Nat) (gap : Text) : Bool :=
  (Text.suffixes gap).any fun s =>
    match s with
    | c :: r => isBreak c && ((r.take indent).takeWhile (!isBreak ·)).contains '\t'
    | [] => false

/-- A plain scalar whose further lines are indented by at least `indent`.  The result tells also
whether a line ending was passed after its last word. -/
def plain? (inFlow : Bool) (indent : Nat) (s : Text) : Option (Text × Bool × Text) :=
  match plainWord? inFlow s with
  | none => none
  | some (word, rest) =>
    let gap := rest.takeWhile isGap
    let after := rest.dropWhile isGap
    let broken := gap.any isBreak
    if gap.isEmpty then some (word, false, rest)
    else if tabInIndentation indent gap then none
    else if (broken && !inFlow && (lastLine gap).length < indent)
        || (endsLine gap && atDocumentMarker after) || after.head? = some '#' then
      some (word, broken, after)
    else if after.length < s.length then
      match plain? inFlow indent after with
      | none => none
      | some ([], _, _) => some (word, broken, after)
      | some (more, ended, rest) => some (word ++ folded gap ++ more, ended, rest)
    else none
termination_by s.length

/-! ### Quoted scalars -/

/-- A scalar in single quotation marks, from the character after the opening one on.  A quotation
mark in it is written twice. -/
def singleQuoted? (s : Text) : Option (Text × Text) :=
  match s with
  | [] => none
  | '\'' :: '\'' :: r => (singleQuoted? r).map fun (t, rest) => ('\'' :: t, rest)
  | '\'' :: r => some ([], r)
  | c :: r =>
    if isGap c then
      let gap := c :: r.takeWhile isGap
      let after := r.dropWhile isGap
      if endsLine gap && atDocumentMarker after then none
      else (singleQuoted? after).map fun (t, rest) => (folded gap ++ t, rest)
    else (singleQuoted? r).map fun (t, rest) => (c :: t, rest)
termination_by s.length
decreasing_by
  all_goals simp only [List.length_cons]
  · omega
  · have := Text.length_dropWhile_le isGap r
    omega
  · omega

/-- The character of a code point given by hexadecimal digits. -/
def codePoint? (digits : Nat) (t : Text) : Option (Char × Text) :=
  if t.length < digits then none
  else do
    let c ← Text.charOf? (← Text.numeral? 16 (t.take digits))
    return (c, t.drop digits)

/-- The character of an escape, from the character after the backslash on. -/
def escape? : Text → Option (Char × Text)
  | '0' :: r => some ('\x00', r)
  | 'a' :: r => some ('\x07', r)
  | 'b' :: r => some ('\x08', r)
  | 't' :: r => some ('\t', r)
  | '\t' :: r => some ('\t', r)
  | 'n' :: r => some ('\n', r)
  | 'v' :: r => some ('\x0b', r)
  | 'f' :: r => some ('\x0c', r)
  | 'r' :: r => some ('\r', r)
  | 'e' :: r => some ('\x1b', r)
  | ' ' :: r => some (' ', r)
  | '"' :: r => some ('"', r)
  | '/' :: r => some ('/', r)
  | '\\' :: r => some ('\\', r)
  | 'N' :: r => some ('\u0085', r)
  | '_' :: r => some ('\u00a0', r)
  | 'L' :: r => some ('\u2028', r)
  | 'P' :: r => some ('\u2029', r)
  | 'x' :: r => codePoint? 2 r
  | 'u' :: r => codePoint? 4 r
  | 'U' :: r => codePoint? 8 r
  | _ => none

/-- A scalar in double quotation marks, from the character after the opening one on.  An escaped
line ending and the blanks after it are dropped. -/
def doubleQuoted? (s : Text) : Option (Text × Text) :=
  match s with
  | [] => none
  | '"' :: r => some ([], r)
  | '\\' :: r =>
    if r.head?.any isBreak then
      let gap := r.takeWhile isGap
      let after := r.dropWhile isGap
      if endsLine gap && atDocumentMarker after then none
      else (doubleQuoted? after).map fun (t, rest) => ((gap.drop 1).filter isBreak ++ t, rest)
    else
      match escape? r with
      | none => none
      | some (c, after) =>
        if after.length ≤ r.length then
          (doubleQuoted? after).map fun (t, rest) => (c :: t, rest)
        else none
  | c :: r =>
    if isGap c then
      let gap := c :: r.takeWhile isGap
      let after := r.dropWhile isGap
      if endsLine gap && atDocumentMarker after then none
      else (doubleQuoted? after).map fun (t, rest) => (folded gap ++ t, rest)
    else (doubleQuoted? r).map fun (t, rest) => (c :: t, rest)
termination_by s.length
decreasing_by
  all_goals simp only [List.length_cons]
  · have := Text.length_dropWhile_le isGap r
    omega
  · omega
  · have := Text.length_dropWhile_le isGap r
    omega
  · omega

end Yaml

end InterviewPlan
