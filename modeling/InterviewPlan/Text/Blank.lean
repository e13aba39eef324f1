/-!
# Blank characters

White space here is the Unicode property White_Space: 25 characters in ten ranges.  It includes
the no-break space, the next-line control and the line separators, and leaves out the zero-width
characters.

## Main definitions

* `Text`: a text as the list of its characters
* `Text.isBlank`: the property as a test
* `Text.trim`, `Text.trimStart`, `Text.trimEnd`: a text without its outer blanks
-/

namespace InterviewPlan

/-- A text is the list of its characters.  Documents, lines and names are all texts. -/
abbrev Text := List Char

namespace Text

/-- The white-space characters as closed ranges of code points, ascending and apart. -/
def blankRanges : List (Nat × Nat) :=
  [(0x09, 0x0D), (0x20, 0x20), (0x85, 0x85), (0xA0, 0xA0), (0x1680, 0x1680), (0x2000, 0x200A),
   (0x2028, 0x2029), (0x202F, 0x202F), (0x205F, 0x205F), (0x3000, 0x3000)]

/-- Whether a character is white space. -/
def isBlank (c : Char) : Bool :=
  blankRanges.any fun r => r.1 ≤ c.toNat && c.toNat ≤ r.2

/-- Spaces and tabs, the characters that indent a line. -/
def isIndent (c : Char) : Bool := c == ' ' || c == '\t'

/-- Dropping from the front leaves no more than there was. -/
theorem length_dropWhile_le {α : Type} (p : α → Bool) (l : List α) :
    (l.dropWhile p).length ≤ l.length :=
  (List.dropWhile_sublist p).length_le

/-- The text without the last characters that satisfy `p`. -/
def dropEndWhile (p : Char → Bool) (t : Text) : Text := (t.reverse.dropWhile p).reverse

/-- The text without its leading blanks. -/
def trimStart (t : Text) : Text := t.dropWhile isBlank

/-- The text without its trailing blanks. -/
def trimEnd (t : Text) : Text := dropEndWhile isBlank t

/-- The text without its outer blanks. -/
def trim (t : Text) : Text := trimEnd (trimStart t)

/-- The text without the characters at either end that satisfy `p`. -/
def trimMatches (p : Char → Bool) (t : Text) : Text := dropEndWhile p (t.dropWhile p)

/-- Whether a character is a single or a double quotation mark. -/
def isQuotationMark (c : Char) : Bool := c == '"' || c == '\''

/-- Whether the text holds nothing but blanks. -/
def isBlankText (t : Text) : Bool := t.all isBlank

end Text

end InterviewPlan
