import InterviewPlan.Yaml.Token

/-!
# YAML nodes

The tokens of a stream form at most one document with one node.  A node is a scalar, a sequence, a
mapping, or an alias of an anchored node; an anchor and a tag may stand before it.  Where a node is
left out, as after the colon in `a:`, an empty plain scalar stands for it.

## Main definitions

* `Yaml.Node`: nodes, over the names of their anchors
* `Yaml.Node.ofTokens?`: the node of a stream of tokens
-/

namespace InterviewPlan

namespace Yaml

/-- What may stand before a node: an anchor and a tag. -/
structure Properties (α : Type) where
  anchor : Option α
  tag : Option Text

/-- A node.  Anchors and aliases are named by `α`. -/
inductive Node (α : Type) where
  | aliasOf (name : α)
  | scalar (properties : Properties α) (text : Text) (plain : Bool)
  | sequence (properties : Properties α) (items : List (Node α))
  | mapping (properties : Properties α) (entries : List (Node α × Node α))

namespace Node

/-- What stands for a node that is left out. -/
def empty {α : Type} : Node α := .scalar ⟨none, none⟩ [] true

/-! ### Reading one node after another -/

/-- The meaning of tag handles. -/
abbrev Handles := List (Text × Text)

/-- The handles that need no directive. -/
def standardHandles : Handles := [(['!'], ['!']), (['!', '!'], "tag:yaml.org,2002:".toList)]

/-- A tag in full. -/
def fullTag? (handles : Handles) (tag : WrittenTag) : Option Text :=
  if tag.handle.isEmpty then some tag.suffix
  else (handles.lookup tag.handle).map (· ++ tag.suffix)

/-- Reads a node from the front of a list of tokens.  Block collections are allowed only in a
block, and a sequence at the indentation of its mapping only where the last argument says so. -/
abbrev NodeReader := (inBlock indentless : Bool) → List Token → Option (Node Text × List Token)

/-- Whether the next token is one of those in front of which a node is left out. -/
def leftOut (ends : Token → Bool) (tokens : List Token) : Bool := tokens.head?.any ends

/-- Tokens that end an entry of a block sequence. -/
def endsBlockItem : Token → Bool
  | .blockEntry | .blockEnd => true
  | _ => false

/-- Tokens that end a key or a value of a block mapping. -/
def endsBlockPart : Token → Bool
  | .key | .value | .blockEnd => true
  | _ => false

/-- Tokens that end an entry of a sequence at the indentation of its mapping. -/
def endsIndentlessItem (token : Token) : Bool := endsBlockItem token || endsBlockPart token

/-- Tokens that end a value in a flow sequence. -/
def endsFlowItem : Token → Bool
  | .flowEntry | .flowSequenceEnd => true
  | _ => false

/-- Tokens that end a value in a flow mapping. -/
def endsFlowValue : Token → Bool
  | .flowEntry | .flowMappingEnd => true
  | _ => false

/-- Whether a token is the indicator of a value. -/
def isValue : Token → Bool
  | .value => true
  | _ => false

/-- The node in front of the tokens, or the empty one where it is left out. -/
def orEmpty (ends : Token → Bool) (read : List Token → Option (Node Text × List Token))
    (tokens : List Token) : Option (Node Text × List Token) :=
  if leftOut ends tokens then some (empty, tokens) else read tokens

/-- The value behind its indicator, or the empty node where there is no indicator or nothing
behind it. -/
def optionalValue (ends : Token → Bool) (read : List Token → Option (Node Text × List Token)) :
    List Token → Option (Node Text × List Token)
  | .value :: rest => orEmpty ends read rest
  | tokens => some (empty, tokens)

/-- The entries of a block sequence, up to its end. -/
def blockItems (read : NodeReader) (tokens : List Token) : Option (List (Node Text) × List Token) :=
  match tokens with
  | .blockEnd :: rest => some ([], rest)
  | .blockEntry :: rest =>
    match orEmpty endsBlockItem (read true false) rest with
    | none => none
    | some (item, after) =>
      -- a node takes tokens and gives none back; the check lets the recursion end
      if after.length ≤ rest.length then
        (blockItems read after).map fun (items, rest) => (item :: items, rest)
      else none
  | _ => none
termination_by tokens.length

/-- The entries of a sequence at the indentation of its mapping, as long as there are any. -/
def indentlessItems (read : NodeReader) (tokens : List Token) :
    Option (List (Node Text) × List Token) :=
  match tokens with
  | .blockEntry :: rest =>
    match orEmpty endsIndentlessItem (read true false) rest with
    | none => none
    | some (item, after) =>
      if after.length ≤ rest.length then
        (indentlessItems read after).map fun (items, rest) => (item :: items, rest)
      else none
  | _ => some ([], tokens)
termination_by tokens.length

/-- The entries of a block mapping, up to its end. -/
def blockEntries (read : NodeReader) (tokens : List Token) :
    Option (List (Node Text × Node Text) × List Token) :=
  match tokens with
  | .blockEnd :: rest => some ([], rest)
  | .key :: rest =>
    let entry := do
      let (key, rest) ← orEmpty endsBlockPart (read true true) rest
      let (value, rest) ← optionalValue endsBlockPart (read true true) rest
      some ((key, value), rest)
    match entry with
    | none => none
    | some (entry, after) =>
      if after.length ≤ rest.length then
        (blockEntries read after).map fun (entries, rest) => (entry :: entries, rest)
      else none
  | _ => none
termination_by tokens.length

/-- A pair that stands for a mapping inside a flow sequence, after the indicator of its key.  Where
the key is left out, the token after the indicator is dropped. -/
def flowPair? (read : NodeReader) (tokens : List Token) : Option (Node Text × List Token) := do
  let (key, tokens) ←
    if leftOut (fun t => isValue t || endsFlowItem t) tokens then some (empty, tokens.tail)
    else read false false tokens
  let (value, tokens) ← optionalValue endsFlowItem (read false false) tokens
  return (.mapping ⟨none, none⟩ [(key, value)], tokens)

/-- Where the reading of a flow collection stands: before an entry, or after its end. -/
inductive FlowState where
  | entry (tokens : List Token)
  | ended (tokens : List Token)

/-- Whether a token ends a flow sequence. -/
def isFlowSequenceEnd : Token → Bool
  | .flowSequenceEnd => true
  | _ => false

/-- Whether a token ends a flow mapping. -/
def isFlowMappingEnd : Token → Bool
  | .flowMappingEnd => true
  | _ => false

/-- The end of a flow collection or its next entry.  A comma stands before every entry but the
first, and one may stand before the end. -/
def entryOrEnd? (isEnd : Token → Bool) (first : Bool) (tokens : List Token) : Option FlowState :=
  if leftOut isEnd tokens then some (.ended tokens.tail)
  else match first, tokens with
    | true, _ => some (.entry tokens)
    | false, .flowEntry :: rest =>
      some (if leftOut isEnd rest then .ended rest.tail else .entry rest)
    | false, _ => none

/-- The items of a flow sequence, up to its end.  `first` tells whether none was read. -/
def flowItems (read : NodeReader) (first : Bool) (tokens : List Token) :
    Option (List (Node Text) × List Token) :=
  match entryOrEnd? isFlowSequenceEnd first tokens with
  | none => none
  | some (.ended rest) => some ([], rest)
  | some (.entry begun) =>
    let item := match begun with
      | .key :: rest => flowPair? read rest
      | _ => read false false begun
    match item with
    | none => none
    | some (item, after) =>
      if after.length < tokens.length then
        (flowItems read false after).map fun (items, rest) => (item :: items, rest)
      else none
termination_by tokens.length

/-- The entries of a flow mapping, up to its end.  `first` tells whether none was read. -/
def flowEntries (read : NodeReader) (first : Bool) (tokens : List Token) :
    Option (List (Node Text × Node Text) × List Token) :=
  match entryOrEnd? isFlowMappingEnd first tokens with
  | none => none
  | some (.ended rest) => some ([], rest)
  | some (.entry begun) =>
    let entry := match begun with
      | .key :: rest => do
        let (key, rest) ← orEmpty (fun t => isValue t || endsFlowValue t) (read false false) rest
        let (value, rest) ← optionalValue endsFlowValue (read false false) rest
        some ((key, value), rest)
      | _ => (read false false begun).map fun (key, rest) => ((key, empty), rest)
    match entry with
    | none => none
    | some (entry, after) =>
      if after.length < tokens.length then
        (flowEntries read false after).map fun (entries, rest) => (entry :: entries, rest)
      else none
termination_by tokens.length

/-- An anchor and a tag, in either order. -/
def properties? (handles : Handles) (tokens : List Token) :
    Option (Properties Text × List Token) :=
  match tokens with
  | .anchor name :: .tag tag :: rest | .tag tag :: .anchor name :: rest =>
    (fullTag? handles tag).map fun tag => (⟨some name, some tag⟩, rest)
  | .anchor name :: rest => some (⟨some name, none⟩, rest)
  | .tag tag :: rest => (fullTag? handles tag).map fun tag => (⟨none, some tag⟩, rest)
  | _ => some (⟨none, none⟩, tokens)

/-- A node in which `depth` collections may still be nested. -/
def read? (handles : Handles) (depth : Nat) (inBlock indentless : Bool) (tokens : List Token) :
    Option (Node Text × List Token) :=
  match tokens with
  | .aliasOf name :: rest => some (.aliasOf name, rest)
  | _ => do
    let (properties, tokens) ← properties? handles tokens
    match tokens, depth with
    | .scalar text plain :: rest, _ =>
      -- the mark alone is no tag for a scalar
      let tag := if properties.tag = some ['!'] then none else properties.tag
      some (.scalar { properties with tag } text plain, rest)
    | .flowSequenceStart :: rest, depth + 1 => do
      let (items, rest) ← flowItems (read? handles depth) true rest
      some (.sequence properties items, rest)
    | .flowMappingStart :: rest, depth + 1 => do
      let (entries, rest) ← flowEntries (read? handles depth) true rest
      some (.mapping properties entries, rest)
    | .blockEntry :: _, depth + 1 =>
      if indentless then do
        let (items, rest) ← indentlessItems (read? handles depth) tokens
        some (.sequence properties items, rest)
      else leftOutNode properties tokens
    | .blockSequenceStart :: rest, depth + 1 =>
      if inBlock then do
        let (items, rest) ← blockItems (read? handles depth) rest
        some (.sequence properties items, rest)
      else leftOutNode properties tokens
    | .blockMappingStart :: rest, depth + 1 =>
      if inBlock then do
        let (entries, rest) ← blockEntries (read? handles depth) rest
        some (.mapping properties entries, rest)
      else leftOutNode properties tokens
    | _, _ => leftOutNode properties tokens
where
  /-- A node that consists of its anchor and tag alone. -/
  leftOutNode (properties : Properties Text) (tokens : List Token) :
      Option (Node Text × List Token) :=
    if properties.anchor.isSome || properties.tag.isSome then
      some (.scalar properties [] true, tokens)
    else none

/-! ### Documents -/

/-- The directives in front of a document: at most one version, which is 1.1 or 1.2, and at most
one meaning for each handle. -/
def directives? (versioned : Bool) (handles : Handles) : List Token → Option (Handles × List Token)
  | .directive (.version major minor) :: rest =>
    if versioned || major != 1 || (minor != 1 && minor != 2) then none
    else directives? true handles rest
  | .directive (.tag handle lead) :: rest =>
    if (handles.lookup handle).isSome then none
    else directives? versioned ((handle, lead) :: handles) rest
  | tokens => some (handles, tokens)

/-- Whether a document without content ends here. -/
def endsDocument : Token → Bool
  | .directive _ | .documentStart | .documentEnd => true
  | _ => false

/-- Whether a token is the marker of the end of a document. -/
def isDocumentEnd : Token → Bool
  | .documentEnd => true
  | _ => false

/-- How deep collections may nest. -/
def depthLimit : Nat := 128

/-- The node of the only document of a stream, and none for an empty stream. -/
def ofTokens? (tokens : List Token) : Option (Option (Node Text)) := do
  if tokens.isEmpty then return none
  let (handles, rest) ← directives? false [] tokens
  let handles := handles ++ standardHandles
  let (node, rest) ← match rest with
    | .documentStart :: rest =>
      if rest.isEmpty || leftOut endsDocument rest then some (empty, rest)
      else read? handles depthLimit true false rest
    | _ => if leftOut endsDocument tokens then none else read? handles depthLimit true false tokens
  if rest.all isDocumentEnd then return some node else none

end Node

end Yaml

end InterviewPlan
