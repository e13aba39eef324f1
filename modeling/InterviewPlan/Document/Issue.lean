import InterviewPlan.Document.Analysis

/-!
# Checking documents

Every segment of a document has to be valid YAML, and at most one order block may be mandatory.

## Main definitions

* `Issue`: a problem of a document
* `Document.validate`: all problems of a document, in the order of its segments
* `Diagnostic`: a problem as it is shown
-/

namespace InterviewPlan

/-- How grave a problem is. -/
inductive Level where
  | info
  | warning
  | error
deriving DecidableEq

/-- The name of a level. -/
def Level.name : Level → Text
  | info => "info".toList
  | warning => "warning".toList
  | error => "error".toList

/-- The name under which a level is shown. -/
def Level.severity : Level → Text
  | info => "Note".toList
  | warning => "Warning".toList
  | error => "Error".toList

/-- A problem of a document, perhaps of one of its blocks and of a place in it. -/
structure Issue where
  blockId : Option Text
  level : Level
  message : Text
  span : Option Span
deriving DecidableEq

namespace Issue

/-- An error of a document as a whole. -/
def error (message : Text) : Issue := ⟨none, .error, message, none⟩

/-- Whether the problem is an error. -/
def isError (issue : Issue) : Bool := issue.level = .error

end Issue

/-- A problem as it is shown: with a mark at its place in a file, if it has one. -/
structure Diagnostic where
  severity : Text
  message : Text
  mark : Option (Nat × Span)
deriving DecidableEq

/-- The problem as it is shown, in the file with a number. -/
def Issue.diagnostic (file : Nat) (issue : Issue) : Diagnostic :=
  ⟨issue.level.severity, issue.message, issue.span.map (file, ·)⟩

/-- The error of a segment as it is shown, in the file with a number. -/
def Document.Unreadable.diagnostic (file : Nat) (e : Document.Unreadable) : Diagnostic :=
  ⟨Level.error.severity, e.message, some (file, e.span)⟩

namespace Document

/-- The wording of the problem that a second order block is mandatory. -/
def secondMandatory : Text := "Only one mandatory interview_order block is allowed.".toList

/-- The problem of a segment that cannot be read. -/
def Unreadable.issue (e : Unreadable) : Issue := { Issue.error e.message with span := some e.span }

/-- The problem of a mandatory order block after another one. -/
def repeatedMandatory (block : Block) : Issue :=
  { Issue.error secondMandatory with blockId := some block.id, span := some block.span }

/-- The problems of analysed segments.  `seen` tells whether a mandatory order block stands before
them. -/
def issuesOf (seen : Bool) : List (Except Unreadable Block) → List Issue
  | [] => []
  | .error e :: rest => e.issue :: issuesOf seen rest
  | .ok block :: rest =>
    if block.isOrder && block.isMandatory then
      (if seen then [repeatedMandatory block] else []) ++ issuesOf true rest
    else issuesOf seen rest

/-- The problems of a document. -/
def validate (read : YamlReader) (document : Text) : List Issue :=
  issuesOf false ((segments document).map (analyzeSegment read))

end Document

end InterviewPlan
