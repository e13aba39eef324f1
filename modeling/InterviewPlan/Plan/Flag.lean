import InterviewPlan.Text.Basic

/-!
# Guard flags

A step that runs at most once is guarded by a flag, a variable of the interview.  A flag that is
not given is derived from the name of the step alone, so that a plan written twice uses the same
flags.

## Main definitions

* `Flag.derived`: the flag of a name
* `Flag.words`: the words of a name, all that its flag depends on
-/

namespace InterviewPlan

namespace Flag

/-- ASCII letters and digits make up the words of a name. -/
def isWordChar (c : Char) : Bool := c.isAlphanum

/-- The words of a name in lower case, joined by single underscores.  `started` tells whether a
word has been written, and `separated` whether other characters stand before the rest. -/
def slug (started separated : Bool) : Text → Text
  | [] => []
  | c :: r =>
    if isWordChar c then
      (if started && separated then ['_'] else []) ++ c.toLower :: slug true false r
    else slug started true r

/-- Every derived flag begins with these characters. -/
def lead : Text := "run_once_".toList

/-- The word that stands for a name without words. -/
def emptyWord : Text := "step".toList

/-- The flag derived from the name of a step. -/
def derived (name : Text) : Text :=
  let s := slug false false name
  lead ++ if s.isEmpty then emptyWord else s

/-- The maximal runs of word characters in lower case. -/
def words : Text → List Text
  | [] => []
  | c :: r =>
    if isWordChar c then
      match words r, r.head?.any isWordChar with
      | w :: ws, true => (c.toLower :: w) :: ws
      | ws, _ => [c.toLower] :: ws
    else words r

end Flag

end InterviewPlan
