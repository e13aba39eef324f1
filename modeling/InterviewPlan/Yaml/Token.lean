import InterviewPlan.Yaml.Block
import InterviewPlan.Yaml.Flow
import InterviewPlan.Yaml.Tag

/-!
# YAML tokens

A stream becomes tokens from left to right.  Indentation becomes tokens too: a line indented
further than the one that holds it opens a block collection, and a line indented less closes it.
What turns out to be a key only by the colon after it gets its key token, and where needed the
opening of a block mapping, in front of it afterwards.  Such a simple key stands on one line, takes
at most 1024 characters, and is pending until the colon or until it cannot be one any more.

## Main definitions

* `Yaml.Token`: the tokens
* `Yaml.Scanner`: the state of scanning
* `Yaml.Scanner.approach?`, `Yaml.Scanner.token?`: the two halves of a step
* `Yaml.Token.scan?`: the tokens of a stream
-/

namespace InterviewPlan

namespace Yaml

/-- A token of a stream. -/
inductive Token where
  | directive (d : Directive)
  | documentStart
  | documentEnd
  | blockSequenceStart
  | blockMappingStart
  | blockEnd
  | flowSequenceStart
  | flowSequenceEnd
  | flowMappingStart
  | flowMappingEnd
  | blockEntry
  | flowEntry
  | key
  | value
  | aliasOf (name : Text)
  | anchor (name : Text)
  | tag (t : WrittenTag)
  | scalar (text : Text) (plain : Bool)

/-- Something that may turn out to be a key: whether it must, the number of tokens before it, and
where it begins. -/
structure PendingKey where
  required : Bool
  position : Nat
  place : Cursor

/-- The state of scanning. -/
structure Scanner where
  cursor : Cursor
  /-- The tokens so far, the last one first, and their number. -/
  tokens : List Token
  count : Nat
  /-- The indentation of the innermost block collection, `-1` outside every one. -/
  indent : Int
  /-- The indentations of the collections around it. -/
  outer : List Int
  /-- The pending key outside flow collections, and that of each open flow collection; the
  innermost first. -/
  pending : List (Option PendingKey)
  /-- Whether a simple key may begin here. -/
  keyAllowed : Bool

namespace Scanner

/-- The beginning of a stream. -/
def start (stream : Text) : Scanner where
  cursor := .start stream
  tokens := []
  count := 0
  indent := -1
  outer := []
  pending := [none]
  keyAllowed := true

/-- Whether a flow collection is open. -/
def inFlow (s : Scanner) : Bool := 1 < s.pending.length

/-- The column of the cursor. -/
def column (s : Scanner) : Int := s.cursor.column

/-- Add a token at the end. -/
def push (token : Token) (s : Scanner) : Scanner :=
  { s with tokens := token :: s.tokens, count := s.count + 1 }

/-- Add a token after the first `position` ones. -/
def insert (position : Nat) (token : Token) (s : Scanner) : Scanner :=
  { s with
    -- the tokens stand in reverse, so that places are counted from the last one
    tokens := s.tokens.insertIdx (s.count - position) token
    count := s.count + 1 }

/-- Go to the place where `rest` is left. -/
def skipTo (rest : Text) (s : Scanner) : Scanner := { s with cursor := s.cursor.skipTo rest }

/-- Pass the next `n` characters. -/
def skip (n : Nat) (s : Scanner) : Scanner := { s with cursor := s.cursor.skip n }

/-! ### Indentation -/

/-- Close the block collections that are indented further than a column. -/
def closeBlocks (column : Int) (s : Scanner) : Scanner :=
  if s.inFlow then s
  else go s.outer s
where
  /-- Close collections as long as one is indented too far and another is around it. -/
  go : List Int → Scanner → Scanner
    | [], s => s
    | indent :: outer, s =>
      if column < s.indent then go outer { s.push .blockEnd with indent, outer } else s

/-- Open a block collection at a column, unless one is open there; its token goes after the first
`position` ones. -/
def openBlock (column : Int) (position : Nat) (token : Token) (s : Scanner) : Scanner :=
  if s.inFlow || column ≤ s.indent then s
  else { s.insert position token with indent := column, outer := s.indent :: s.outer }

/-! ### Simple keys -/

/-- Give up the pending key of the innermost level; one that must be a key cannot be given up. -/
def dropKey? (s : Scanner) : Option Scanner :=
  match s.pending with
  | some key :: outer => if key.required then none else some { s with pending := none :: outer }
  | _ => some s

/-- Make what begins here the pending key, where a simple key may begin.  In a block mapping a line
at its indentation has to begin with a key. -/
def awaitKey? (s : Scanner) : Option Scanner :=
  if s.keyAllowed then do
    let s ← s.dropKey?
    let key : PendingKey := ⟨!s.inFlow && s.indent = s.column, s.count, s.cursor⟩
    return { s with pending := some key :: s.pending.tail }
  else some s

/-- Whether a pending key began on an earlier line or too many characters ago. -/
def isStale (place : Cursor) (key : PendingKey) : Bool :=
  key.place.line < place.line || key.place.index + 1024 < place.index

/-- Give up the pending keys that are stale. -/
def dropStaleKeys? (s : Scanner) : Option Scanner := do
  let pending ← s.pending.mapM fun
    | some key =>
      if isStale s.cursor key then if key.required then none else some none else some (some key)
    | none => some none
  return { s with pending }

/-! ### Steps -/

/-- Blanks, comments and line endings up to the next token.  `lineStart` tells whether nothing was
passed on the line, `comment` whether a comment is open, and `keyAllowed` whether a simple key may
begin; the last is part of the result.  Tabs are passed only where no simple key may begin, and a
byte-order mark only at the beginning of a line. -/
def toToken (inFlow : Bool) (lineStart comment keyAllowed : Bool) : Text → Bool × Text
  | [] => (keyAllowed, [])
  | c :: r =>
    if isBreak c then toToken inFlow true false (keyAllowed || !inFlow) r
    else if comment then toToken inFlow false true keyAllowed r
    else if c = '#' then toToken inFlow false true keyAllowed r
    else if c = ' ' || (c = '\t' && (inFlow || !keyAllowed)) || (c = '\ufeff' && lineStart) then
      toToken inFlow false false keyAllowed r
    else (keyAllowed, c :: r)

/-- A token that ends every block collection and every pending key, at the left margin. -/
def atMargin? (token : Token) (rest : Text) (s : Scanner) : Option Scanner := do
  let s ← (s.closeBlocks (-1)).dropKey?
  return ({ s with keyAllowed := false }.skipTo rest).push token

/-- The opening of a flow collection. -/
def openFlow? (token : Token) (s : Scanner) : Option Scanner := do
  let s ← s.awaitKey?
  return ({ s with pending := none :: s.pending, keyAllowed := true }.skip 1).push token

/-- The end of a flow collection. -/
def closeFlow? (token : Token) (s : Scanner) : Option Scanner := do
  let s ← s.dropKey?
  let pending := if s.inFlow then s.pending.tail else s.pending
  return ({ s with pending, keyAllowed := false }.skip 1).push token

/-- A comma in a flow collection. -/
def flowEntry? (s : Scanner) : Option Scanner := do
  let s ← s.dropKey?
  return ({ s with keyAllowed := true }.skip 1).push .flowEntry

/-- The indicator of an entry of a block sequence. -/
def blockEntry? (s : Scanner) : Option Scanner := do
  if !s.inFlow && !s.keyAllowed then none
  let s ← (s.openBlock s.column s.count .blockSequenceStart).dropKey?
  return ({ s with keyAllowed := true }.skip 1).push .blockEntry

/-- The indicator of a key. -/
def explicitKey? (s : Scanner) : Option Scanner := do
  if !s.inFlow && !s.keyAllowed then none
  let s ← (s.openBlock s.column s.count .blockMappingStart).dropKey?
  return ({ s with keyAllowed := !s.inFlow }.skip 1).push .key

/-- The indicator of a value.  A pending key becomes a key now. -/
def value? (s : Scanner) : Option Scanner :=
  match s.pending with
  | some key :: outer =>
    let s := { s.insert key.position .key with pending := none :: outer, keyAllowed := false }
    -- what opens the mapping goes to the same place and so in front of the key
    let s := s.openBlock key.place.column key.position .blockMappingStart
    some ((s.skip 1).push .value)
  | _ =>
    if !s.inFlow && !s.keyAllowed then none
    else
      let s := s.openBlock s.column s.count .blockMappingStart
      some (({ s with keyAllowed := !s.inFlow }.skip 1).push .value)

/-- A token that may begin a simple key. -/
def keyPart? (token : Token) (rest : Text) (s : Scanner) : Option Scanner := do
  let s ← s.awaitKey?
  return ({ s with keyAllowed := false }.skipTo rest).push token

/-- A plain scalar.  After one that ends with a line a simple key may begin. -/
def plainScalar? (s : Scanner) : Option Scanner := do
  let (text, ended, rest) ← plain? s.inFlow (s.indent + 1).toNat s.cursor.rest
  let s ← s.keyPart? (.scalar text true) rest
  return { s with keyAllowed := ended }

/-- A block scalar. -/
def blockScalarToken? (folding : Bool) (t : Text) (s : Scanner) : Option Scanner := do
  let s ← s.dropKey?
  let (text, rest) ← blockScalar? folding s.indent t
  return ({ s with keyAllowed := true }.skipTo rest).push (.scalar text false)

/-- The characters that cannot begin a plain scalar. -/
def isIndicator (c : Char) : Bool :=
  isGap c || "-?:,[]\x7b\x7d#&*!|>'\"%@\x60".toList.contains c

/-- Whether a plain scalar begins here. -/
def atPlain (inFlow : Bool) : Text → Bool
  | [] => false
  | c :: r =>
    !isIndicator c || (c = '-' && !r.head?.any isBlank) || (!inFlow && (c = '?' || c = ':') && !atGap r)

/-- The next token, where one begins. -/
def token? (s : Scanner) : Option Scanner :=
  let margin := s.cursor.column = 0
  let t := s.cursor.rest
  if margin && atMarker ['-', '-', '-'] t then s.atMargin? .documentStart (t.drop 3)
  else if margin && atMarker ['.', '.', '.'] t then s.atMargin? .documentEnd (t.drop 3)
  else match t with
  | [] => none
  | c :: r =>
    -- inside of a flow collection no gap has to follow these indicators
    let indicates := s.inFlow || atGap r
    if margin && c = '%' then do
      let (d, rest) ← directive? r
      s.atMargin? (.directive d) rest
    else if c = '[' then s.openFlow? .flowSequenceStart
    else if c = '{' then s.openFlow? .flowMappingStart
    else if c = ']' then s.closeFlow? .flowSequenceEnd
    else if c = '}' then s.closeFlow? .flowMappingEnd
    else if c = ',' then s.flowEntry?
    else if c = '-' && atGap r then s.blockEntry?
    else if c = '?' && indicates then s.explicitKey?
    else if c = ':' && indicates then s.value?
    else if c = '*' then do
      let (name, rest) ← anchorName? r
      s.keyPart? (.aliasOf name) rest
    else if c = '&' then do
      let (name, rest) ← anchorName? r
      s.keyPart? (.anchor name) rest
    else if c = '!' then do
      let (tag, rest) ← tag? s.inFlow r
      s.keyPart? (.tag tag) rest
    else if c = '|' && !s.inFlow then s.blockScalarToken? false r
    else if c = '>' && !s.inFlow then s.blockScalarToken? true r
    else if c = '\'' then do
      let (text, rest) ← singleQuoted? r
      s.keyPart? (.scalar text false) rest
    else if c = '"' then do
      let (text, rest) ← doubleQuoted? r
      s.keyPart? (.scalar text false) rest
    else if atPlain s.inFlow t then s.plainScalar?
    else none

/-- Go to the next token, and close the block collections that end before it. -/
def approach? (s : Scanner) : Option Scanner := do
  let (keyAllowed, rest) := toToken s.inFlow (s.cursor.column == 0) false s.keyAllowed s.cursor.rest
  let s ← ({ s with keyAllowed }.skipTo rest).dropStaleKeys?
  return s.closeBlocks s.column

/-- Scan up to the end of the stream, where every block collection is closed.  A token has at least
one character, so as many steps as characters are enough, and one more for the end. -/
def run? : Nat → Scanner → Option (List Token)
  | 0, _ => none
  | steps + 1, s => do
    let s ← s.approach?
    if s.cursor.rest.isEmpty then
      return (← (s.closeBlocks (-1)).dropKey?).tokens.reverse
    run? steps (← s.token?)

end Scanner

/-- The tokens of a stream. -/
def Token.scan? (stream : Text) : Option (List Token) :=
  if stream.all isAllowed then
    let stream := withLineFeeds stream
    Scanner.run? (stream.length + 1) (.start stream)
  else none

end Yaml

end InterviewPlan
