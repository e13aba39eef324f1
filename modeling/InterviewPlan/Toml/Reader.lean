import InterviewPlan.Toml.Value

/-!
# Reading TOML settings

## Main definitions

* `Toml.readKey`: a key, perhaps dotted
* `Toml.readValue`: a value
* `Toml.parse`: a whole file
-/

namespace InterviewPlan

namespace Toml

/-- Blanks inside a line. -/
def skipBlanks (t : Text) : Text := t.dropWhile Text.isIndent

/-- A line ending: a line feed, perhaps after a carriage return. -/
def afterLineEnding? : Text → Option Text
  | '\n' :: r => some r
  | '\r' :: '\n' :: r => some r
  | _ => none

/-- Whether a line may hold the character: a tab, but no other control character. -/
def isLineChar (c : Char) : Bool := c == '\t' || (0x20 ≤ c.toNat && c.toNat ≠ 0x7F)

/-- The text after a comment, if one begins here. -/
def skipComment : Text → Text
  | '#' :: r => r.dropWhile isLineChar
  | t => t

/-- The end of a line that has been read: blanks, perhaps a comment, and the line ending or the end
of the file. -/
def endOfLine? (t : Text) : Option Text :=
  match skipComment (skipBlanks t) with
  | [] => some []
  | t => afterLineEnding? t

/-- Blanks, line endings and comments between the items of a list. -/
def skipGaps (t : Text) : Text :=
  let t' := skipComment (skipBlanks t)
  let rest := (afterLineEnding? t').getD t'
  -- it goes on for as long as something is passed
  if rest.length < t.length then skipGaps rest else t
termination_by t.length

/-! ### Texts -/

/-- The character of an escape, from the character after the backslash on. -/
def readEscape : Text.Reader Char
  | 'b' :: r => some ('\x08', r)
  | 't' :: r => some ('\t', r)
  | 'n' :: r => some ('\n', r)
  | 'f' :: r => some ('\x0c', r)
  | 'r' :: r => some ('\r', r)
  | '"' :: r => some ('"', r)
  | '\\' :: r => some ('\\', r)
  | 'u' :: r => codePoint 4 r
  | 'U' :: r => codePoint 8 r
  | _ => none
where
  /-- A code point of a number of hexadecimal digits. -/
  codePoint (digits : Nat) (t : Text) : Option (Char × Text) :=
    if t.length < digits then none
    else do
      let c ← Text.charOf? (← Text.numeral? 16 (t.take digits))
      return (c, t.drop digits)

/-- A text on one line in double quotation marks, after the opening one. -/
def readBasic (t : Text) : Option (Text × Text) :=
  match t with
  | [] => none
  | '"' :: r => some ([], r)
  | '\\' :: r =>
    match readEscape r with
    | none => none
    | some (c, rest) =>
      if rest.length ≤ r.length then (readBasic rest).map fun (cs, t) => (c :: cs, t) else none
  | c :: r => if isLineChar c then (readBasic r).map fun (cs, t) => (c :: cs, t) else none
termination_by t.length

/-- A text on one line in single quotation marks, after the opening one. -/
def readLiteral : Text → Option (Text × Text)
  | [] => none
  | '\'' :: r => some ([], r)
  | c :: r => if isLineChar c then (readLiteral r).map fun (cs, t) => (c :: cs, t) else none

/-- The end of a text in three quotation marks: up to two more marks belong to the text. -/
def closing? (mark : Char) (t : Text) : Option (Text × Text) :=
  let marks := (t.takeWhile (· == mark)).length
  if marks < 3 then none
  else
    let kept := min (marks - 3) 2
    some (List.replicate kept mark, t.drop (kept + 3))

/-- The text after an escaped line ending and all blanks and line endings that follow it. -/
def afterEscapedEnding? (t : Text) : Option Text := do
  let rest ← afterLineEnding? (skipBlanks t)
  return skipEndings rest
where
  /-- Blanks and line endings. -/
  skipEndings (t : Text) : Text :=
    let t' := skipBlanks t
    let rest := (afterLineEnding? t').getD t'
    if rest.length < t.length then skipEndings rest else t
  termination_by t.length

/-- A text on several lines in triple quotation marks, after the opening ones and the line ending
that may follow them.  Every line ending becomes a line feed; `escapes` tells whether backslashes
escape. -/
def readLines (mark : Char) (escapes : Bool) (t : Text) : Option (Text × Text) :=
  match closing? mark t with
  | some done => some done
  | none =>
    match t with
    | [] => none
    | c :: r =>
      if c = '\n' then (readLines mark escapes r).map fun (cs, t) => ('\n' :: cs, t)
      else if c = '\r' then
        match r with
        | '\n' :: r => (readLines mark escapes r).map fun (cs, t) => ('\n' :: cs, t)
        | _ => none
      else if escapes && c = '\\' then
        -- blanks may stand between the backslash and the line ending
        match afterEscapedEnding? r with
        | some rest => if rest.length ≤ r.length then readLines mark escapes rest else none
        | none =>
          match readEscape r with
          | none => none
          | some (c, rest) =>
            if rest.length ≤ r.length then
              (readLines mark escapes rest).map fun (cs, t) => (c :: cs, t)
            else none
      else if isLineChar c then (readLines mark escapes r).map fun (cs, t) => (c :: cs, t)
      else none
termination_by t.length

/-- A text of any of the four kinds. -/
def readText : Text.Reader Text
  | '"' :: '"' :: '"' :: r => readLines '"' true ((afterLineEnding? r).getD r)
  | '\'' :: '\'' :: '\'' :: r => readLines '\'' false ((afterLineEnding? r).getD r)
  | '"' :: r => readBasic r
  | '\'' :: r => readLiteral r
  | _ => none

/-! ### Keys and values -/

/-- One part of a key: bare, or quoted on one line. -/
def readKeyPart (t : Text) : Option (Text × Text) :=
  match t with
  | '"' :: r => readBasic r
  | '\'' :: r => readLiteral r
  | _ =>
    let isBare (c : Char) : Bool := c.isAlphanum || c == '_' || c == '-'
    let bare := t.takeWhile isBare
    if bare.isEmpty then none else some (bare, t.dropWhile isBare)

/-- A key of one or more parts between points. -/
def readKey (t : Text) : Option (List Text × Text) :=
  match readKeyPart (skipBlanks t) with
  | none => none
  | some (part, rest) =>
    match skipBlanks rest with
    | '.' :: r =>
      if r.length < t.length then (readKey r).map fun (parts, rest) => (part :: parts, rest)
      else none
    | rest => some ([part], rest)
termination_by t.length

/-- A key, an equals sign and a value. -/
def readEntry (value : Text.Reader Toml) : Text.Reader (List Text × Toml) := fun t => do
  let (key, rest) ← readKey t
  match rest with
  | '=' :: rest =>
    let (v, rest) ← value (skipBlanks rest)
    return ((key, v), rest)
  | _ => none

/-- The items of a list up to its closing bracket; a comma may stand before the bracket. -/
def readItems (value : Text.Reader Toml) (t : Text) : Option (List Toml × Text) :=
  match skipGaps t with
  | ']' :: rest => some ([], rest)
  | begun =>
    match value begun with
    | none => none
    | some (item, rest) =>
      match skipGaps rest with
      | ']' :: rest => some ([item], rest)
      | ',' :: rest =>
        if rest.length < t.length then
          (readItems value rest).map fun (items, rest) => (item :: items, rest)
        else none
      | _ => none
termination_by t.length

/-- The table of the entries between braces. -/
def tableOf? (entries : List (List Text × Toml)) : Option Toml :=
  (entries.foldlM (fun table (key, value) => put? table key value) []).map (.table .braces)

/-- A value in which `depth` lists and tables may still be nested. -/
def readValue (depth : Nat) (t : Text) : Option (Toml × Text) :=
  match depth, t with
  | _, 't' :: 'r' :: 'u' :: 'e' :: r => some (.bool true, r)
  | _, 'f' :: 'a' :: 'l' :: 's' :: 'e' :: r => some (.bool false, r)
  | depth + 1, '[' :: r => (readItems (readValue depth) r).map fun (items, t) => (.list items, t)
  | depth + 1, '{' :: r => do
    let (entries, rest) ← Text.Reader.enclosed skipBlanks (readEntry (readValue depth)) '}' r
    return (← tableOf? entries, rest)
  | _, _ => (readText t).map fun (s, rest) => (.str s, rest)

/-- How deep lists and tables may nest. -/
def depthLimit : Nat := 80

/-! ### Files -/

/-- A header between square brackets, after the opening one. -/
def readHeader (t : Text) : Option (List Text × Text) := do
  let (key, rest) ← readKey t
  match rest with
  | ']' :: rest => return (key, rest)
  | _ => none

/-- The lines of a file.  `header` is the table they belong to, and `table` holds what was read. -/
def readFile (header : List Text) (table : Entries) (t : Text) : Option Entries :=
  match skipGaps t with
  | [] => some table
  | begun =>
    let line := match begun with
      | '[' :: r => do
        let (key, rest) ← readHeader r
        return (key, ← openTable? table key, rest)
      | _ => do
        let ((key, value), rest) ← readEntry (readValue depthLimit) begun
        return (header, ← putUnder? table header key value, rest)
    match line with
    | none => none
    | some (header, table, rest) =>
      match endOfLine? rest with
      | none => none
      | some rest => if rest.length < t.length then readFile header table rest else none
termination_by t.length

/-- A whole file as the entries of its table; a byte-order mark may stand in front. -/
def parse (t : Text) : Option Entries :=
  readFile [] [] (match t with | '\ufeff' :: r => r | _ => t)

end Toml

end InterviewPlan
