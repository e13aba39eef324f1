import InterviewPlan.Fixture.Verdict

/-!
# Reports on fixtures

A run of fixtures is reported line by line: under the name of each category a line for each of its
fixtures, then the failures in detail, and at last the counts.

## Main definitions

* `Report`: lines, and whether the run went well
* `Report.ofTree`: the run of the fixtures at a path
* `Report.categories`: the list of the categories at a path
-/

namespace InterviewPlan

/-- The lines of a report, and whether what they report went well. -/
structure Report where
  lines : List Text
  passed : Bool

namespace Report

/-- Colours and emphasis of a terminal. -/
inductive Paint where
  | bold | green | red

/-- The code of a paint. -/
def Paint.code : Paint → Text
  | bold => "1".toList
  | green => "32".toList
  | red => "31".toList

/-- A painted text, or the plain one where there is no colour. -/
def paint (color : Bool) (p : Paint) (t : Text) : Text :=
  if color then "\x1b[".toList ++ p.code ++ 'm' :: t ++ "\x1b[0m".toList else t

/-- A fixture that was run: its path as it is shown, and the verdict. -/
structure Run where
  path : Text
  verdict : Verdict

/-- The last name of a path, unless it leads nowhere by name. -/
def lastName? (path : Text) : Option Text :=
  match ((FileTree.names path).filter fun name => !name.isEmpty && name ≠ ['.']).getLast? with
  | some name => if name = ['.', '.'] then none else some name
  | none => none

/-- How a fixture is called: by its description, or else by the name of its file. -/
def Run.label (r : Run) : Text :=
  r.verdict.description.getD
    (((lastName? r.path).bind (Text.beforeEnd? FixtureFile.ending)).getD ['?'])

/-- A category as it is shown. -/
def categoryTitle (category : Text) : Text :=
  if category.isEmpty then "(root)".toList else category

/-- A path below another one. -/
def pathBelow (root : Text) (path : List Text) : Text :=
  let names := Text.joinWith ['/'] path
  if root.isEmpty || root.getLast? = some '/' then root ++ names else root ++ '/' :: names

/-- The line of a fixture. -/
def Run.line (color : Bool) (r : Run) : Text :=
  let outcome := match r.verdict.failure with
    | none => paint color .green "PASS".toList
    | some _ => paint color .red "FAIL".toList
  "  ".toList ++ outcome ++ "  ".toList ++ r.label

/-- The lines of a failure. -/
def Run.details (r : Run) : List Text :=
  match r.verdict.failure with
  | none => []
  | some failure =>
    [[], "  --- ".toList ++ r.path ++ " ---".toList]
      ++ (Text.lines failure.message).map ("  ".toList ++ ·)

/-- The last line of a report: how many fixtures passed and failed. -/
def counts (color : Bool) (passed failed : Nat) : Text :=
  let outcome := if failed = 0 then paint color .green "ok".toList
    else paint color .red "FAILED".toList
  let total := if failed = 0 then [] else " (of ".toList ++ Text.ofNat (passed + failed) ++ [')']
  "test result: ".toList ++ outcome ++ ". ".toList ++ Text.ofNat passed ++ " passed, ".toList
    ++ Text.ofNat failed ++ " failed".toList ++ total

/-- The report on fixtures that were run, in groups under titles. -/
def ofRuns (color : Bool) (groups : List (List Text × List Run)) : Report :=
  let runs := groups.flatMap (·.2)
  let failed := runs.filter (·.verdict.failure.isSome)
  let overview := groups.flatMap fun (title, runs) => title ++ runs.map (Run.line color)
  let details := if failed.isEmpty then [] else
    [[], "failures:".toList] ++ failed.flatMap Run.details
  ⟨overview ++ details ++ [[], counts color (runs.length - failed.length) failed.length],
    failed.isEmpty⟩

/-- The line that no fixture was found at a path. -/
def noneFound (path : Text) : Text :=
  "no ".toList ++ FixtureFile.ending ++ " files found in ".toList ++ path

/-- The warning about a request that added no category. -/
def warning (request : Text) : Text :=
  "warning: category '".toList ++ request ++ "' not found".toList

/-- The lines above the fixtures of a category. -/
def title (color : Bool) (category : Text) : List Text :=
  [[], paint color .bold (categoryTitle category)]

/-- The catalogue at a path; where there is no directory it is empty. -/
def catalogueAt : Except FileError FileTree → Catalogue
  | .ok tree => Catalogue.ofTree tree
  | .error _ => []

/-- The report on the fixtures of a catalogue that some requests ask for. -/
def ofCatalogue (read : Toml.Source) (color : Bool) (path : Text) (catalogue : Catalogue)
    (requests : List Text) : Report :=
  let requests := requests.map Catalogue.requestName
  let warnings := (Catalogue.selection catalogue requests).idle.map warning
  let selected := Catalogue.select catalogue requests
  if selected.isEmpty then ⟨warnings ++ ["no matching categories found".toList], false⟩
  else
    let report := ofRuns color (selected.map fun (category, files) =>
      (title color category, files.map fun f =>
        ⟨pathBelow path f.path, Verdict.ofFile read f.content⟩))
    { report with lines := warnings ++ report.lines }

/-- The report on the fixtures at a path, where `found` stands: a single file, whatever its
category, or those below a directory that some requests ask for. -/
def ofTree (read : Toml.Source) (color : Bool) (path : Text) (found : Except FileError FileTree)
    (requests : List Text) : Report :=
  match found with
  | .ok (.file content) => ofRuns color [([], [⟨path, Verdict.ofFile read content⟩])]
  | found =>
    let catalogue := catalogueAt found
    if catalogue.isEmpty then ⟨[noneFound path], false⟩
    else ofCatalogue read color path catalogue requests

/-- The list of the categories at a path, where `found` stands. -/
def categories (path : Text) (found : Except FileError FileTree) : Report :=
  match found with
  | .ok (.file _) => ⟨["(single file, no categories)".toList], true⟩
  | found =>
    let catalogue := catalogueAt found
    if catalogue.isEmpty then ⟨[noneFound path], true⟩
    else
      ⟨"available categories:".toList :: catalogue.map fun (category, files) =>
        "  ".toList ++ categoryTitle category ++ " (".toList ++ Text.ofNat files.length
          ++ " tests)".toList, true⟩

end Report

end InterviewPlan
