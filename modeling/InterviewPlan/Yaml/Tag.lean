import InterviewPlan.Yaml.Source

/-!
# Tags, anchors and directives

## Main definitions

* `Yaml.anchorName?`: the name of an anchor or an alias
* `Yaml.tag?`: a tag as handle and suffix
* `Yaml.directive?`: a directive at the beginning of a stream
-/

namespace InterviewPlan

namespace Yaml

/-- The name of an anchor or an alias, from the character after its indicator on. -/
def anchorName? (t : Text) : Option (Text × Text) :=
  let name := t.takeWhile isNameChar
  let rest := t.dropWhile isNameChar
  let ends := atGap rest || rest.head?.any ("?:,]\x7d%@\x60".toList.contains ·)
  if name.isEmpty || !ends then none else some (name, rest)

/-- A byte written as a percent sign and two hexadecimal digits. -/
def percentByte? : Text → Option (Nat × Text)
  | '%' :: a :: b :: r => (Text.numeral? 16 [a, b]).map (·, r)
  | _ => none

/-- The number of bytes of a character by its first byte. -/
def byteCount? (lead : Nat) : Option Nat :=
  if lead < 0x80 then some 1
  else if lead / 0x20 = 6 then some 2
  else if lead / 0x10 = 14 then some 3
  else if lead / 8 = 30 then some 4
  else none

/-- The further bytes of a character, six bits each, read after `n`. -/
def trailBytes? : Nat → Nat → Text → Option (Nat × Text)
  | 0, n, t => some (n, t)
  | count + 1, n, t => do
    let (byte, t) ← percentByte? t
    if byte / 0x40 = 2 then trailBytes? count (n * 0x40 + byte % 0x40) t else none

/-- A character written byte by byte with percent signs. -/
def percentChar? (t : Text) : Option (Char × Text) := do
  let (lead, t) ← percentByte? t
  let count ← byteCount? lead
  let bits := if count = 1 then lead else lead % Nat.pow 2 (7 - count)
  let (n, t) ← trailBytes? (count - 1) bits t
  return ((Text.charOf? n).getD '\ufffd', t)

/-- Whether a tag may hold the character as it stands.  Commas and square brackets are allowed
only between angle brackets. -/
def isTagChar (verbatim : Bool) (c : Char) : Bool :=
  isNameChar c || ";/?:@&=+$.!~*'()".toList.contains c || (verbatim && ",[]".toList.contains c)

/-- The characters of a tag. -/
def tagChars? (verbatim : Bool) (t : Text) : Option (Text × Text) :=
  match t with
  | [] => some ([], [])
  | c :: r =>
    if c = '%' then
      match percentChar? (c :: r) with
      | none => none
      | some (x, rest) =>
        if rest.length ≤ r.length then
          (tagChars? verbatim rest).map fun (xs, rest) => (x :: xs, rest)
        else none
    else if isTagChar verbatim c then
      (tagChars? verbatim r).map fun (xs, rest) => (c :: xs, rest)
    else some ([], c :: r)
termination_by t.length

/-- A tag in its written form. -/
structure WrittenTag where
  handle : Text
  suffix : Text

/-- A tag without angle brackets, from the character after the exclamation mark on. -/
def shorthandTag? (t : Text) : Option (WrittenTag × Text) := do
  let name := t.takeWhile isNameChar
  match t.dropWhile isNameChar with
  | '!' :: r =>
    let (suffix, rest) ← tagChars? false r
    if suffix.isEmpty then none else some (⟨'!' :: name ++ ['!'], suffix⟩, rest)
  | _ =>
    let (suffix, rest) ← tagChars? false t
    return (if suffix.isEmpty then ⟨[], ['!']⟩ else ⟨['!'], suffix⟩, rest)

/-- A tag, from the character after the exclamation mark on.  A gap follows it, or a comma inside
a flow collection. -/
def tag? (inFlow : Bool) (t : Text) : Option (WrittenTag × Text) := do
  let (tag, rest) : WrittenTag × Text ← match t with
    | '<' :: r =>
      let (suffix, rest) ← tagChars? true r
      match rest with
      | '>' :: rest => if suffix.isEmpty then none else some (⟨[], suffix⟩, rest)
      | _ => none
    | _ => shorthandTag? t
  if atGap rest || (inFlow && rest.head? = some ',') then some (tag, rest) else none

/-! ### Directives -/

/-- A directive: the version of the format, or the meaning of a tag handle. -/
inductive Directive where
  | version (major minor : Nat)
  | tag (handle lead : Text)

/-- A number of at most nine digits. -/
def versionNumber? (t : Text) : Option (Nat × Text) :=
  let digits := t.takeWhile Char.isDigit
  if digits.isEmpty || 9 < digits.length then none
  else some (Text.digitsValue 0 digits, t.dropWhile Char.isDigit)

/-- A tag handle in a directive: an exclamation mark alone, or a name between two. -/
def handle? : Text → Option (Text × Text)
  | '!' :: r =>
    let name := r.takeWhile isNameChar
    match r.dropWhile isNameChar with
    | '!' :: rest => some ('!' :: name ++ ['!'], rest)
    | rest => if name.isEmpty then some (['!'], rest) else none
  | _ => none

/-- A directive, from the character after the percent sign on, with its whole line. -/
def directive? (t : Text) : Option (Directive × Text) := do
  let name := t.takeWhile isNameChar
  let t := t.dropWhile isNameChar
  if name.isEmpty || !atGap t then none
  let (directive, t) ←
    if name = "YAML".toList then do
      let (major, t) ← versionNumber? (t.dropWhile isBlank)
      let t ← ['.'].isPrefixOf? t
      let (minor, t) ← versionNumber? t
      some (Directive.version major minor, t)
    else if name = "TAG".toList then do
      let (handle, t) ← handle? (t.dropWhile isBlank)
      if !t.head?.any isBlank then none
      let (lead, t) ← tagChars? true (t.dropWhile isBlank)
      if lead.isEmpty || !atGap t then none
      some (Directive.tag handle lead, t)
    else none
  let t := t.dropWhile isBlank
  let t := if t.head? = some '#' then t.dropWhile (!isBreak ·) else t
  match t with
  | [] => some (directive, [])
  | c :: r => if isBreak c then some (directive, r) else none

end Yaml

end InterviewPlan
