import InterviewPlan.Text.Basic

/-!
# Reading texts

A reader takes a text and answers what it read together with the rest.  Repetition stops unless
the rest gets shorter, so it ends for every reader.  A source reads a whole text, of a format that
others define, and may say in their words why it fails.

## Main definitions

* `Text.Reader`: a partial reader of one item
* `Text.Reader.separated`: items between commas, up to a closing character
* `Text.Reader.enclosed`: the same, where there may be no item at all
* `Text.Source`: a reader of whole texts
* `Text.withReason`: an error with the words of a source
-/

namespace InterviewPlan

namespace Text

/-- A reader of one item from the front of a text. -/
abbrev Reader (α : Type) := Text → Option (α × Text)

namespace Reader

variable {α : Type}

/-- What follows an item: the closing character, or a comma and further items.  `skip` drops what
may stand around the punctuation. -/
def separated (skip : Text → Text) (item : Reader α) (close : Char) (s : Text) :
    Option (List α × Text) :=
  match skip s with
  | [] => none
  | c :: r =>
    if c = close then some ([], r)
    else if c = ',' then
      match item (skip r) with
      | none => none
      | some (x, rest) =>
        if rest.length < s.length then
          (separated skip item close rest).map fun (xs, t) => (x :: xs, t)
        else none
    else none
termination_by s.length

/-- Items between commas up to a closing character, or the closing character alone. -/
def enclosed (skip : Text → Text) (item : Reader α) (close : Char) (s : Text) :
    Option (List α × Text) :=
  match skip s with
  | [] => none
  | c :: r =>
    if c = close then some ([], r)
    else
      match item (c :: r) with
      | none => none
      | some (x, rest) => (separated skip item close rest).map fun (xs, t) => (x :: xs, t)

end Reader

/-- A reader of whole texts: a value, or why there is none, in the words of the source as far as
they are known. -/
abbrev Source (α : Type) := Text → Except (Option Text) α

namespace Source

variable {α : Type}

/-- A source that fails without a word. -/
def ofOption (read : Text → Option α) : Source α := fun t => (read t).elim (.error none) .ok

instance : Coe (Text → Option α) (Source α) := ⟨ofOption⟩

theorem ofOption_of_eq_some {read : Text → Option α} {t : Text} {x : α} (h : read t = some x) :
    ofOption read t = .ok x := by
  rw [ofOption, h]
  rfl

end Source

/-- An error, and behind a colon the words of a source. -/
def withReason (error : Text) : Option Text → Text
  | some reason => error ++ ": ".toList ++ reason
  | none => error

end Text

end InterviewPlan
