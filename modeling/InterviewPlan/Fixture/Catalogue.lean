import InterviewPlan.Files.Tree

/-!
# Catalogues of fixtures

The fixtures below a directory are the files whose names end in `.order.test`.  The category of a
fixture is the path of the directories between the two, joined by slashes; fixtures of the
directory itself have the empty category.  A catalogue lists the fixtures of each category.

A request names a category, and asks for it and all categories below it.  Slashes around its name
do not count.

## Main definitions

* `Catalogue.ofTree`: the catalogue of the fixtures below a directory
* `Catalogue.select`: the part of a catalogue that is asked for
* `Catalogue.selection`: the names asked for, and the requests that add nothing to those before
-/

namespace InterviewPlan

/-- A file of a fixture: its path below the directory that was searched, and its bytes. -/
structure FixtureFile where
  path : List Text
  content : ByteArray

namespace FixtureFile

/-- How the names of fixtures end. -/
def ending : Text := ".order.test".toList

/-- The name of a category in which backslashes count as slashes. -/
def slashed (t : Text) : Text := t.map fun c => if c = '\\' then '/' else c

/-- The category of a fixture. -/
def category (f : FixtureFile) : Text := slashed (Text.joinWith ['/'] f.path.dropLast)

/-- The order of paths, name by name. -/
def pathBefore : List Text → List Text → Bool
  | _, [] => false
  | [], _ :: _ => true
  | a :: s, b :: t => Text.before a b || (a = b && pathBefore s t)

/-- Whether a fixture may stand before another one in a list. -/
def precedes (f g : FixtureFile) : Bool := !pathBefore g.path f.path

mutual

/-- The fixtures at a name inside the directory that `above` leads to. -/
def named (above : List Text) (name : Text) : FileTree → List FixtureFile
  | .file content =>
    if ending.isSuffixOf name then [⟨above ++ [name], content⟩] else []
  | .directory entries => inside (above ++ [name]) entries

/-- The fixtures inside a directory and the directories in it. -/
def inside (above : List Text) : List (Text × FileTree) → List FixtureFile
  | [] => []
  | (name, tree) :: rest => named above name tree ++ inside above rest

end

end FixtureFile

/-- Categories with their fixtures. -/
abbrev Catalogue := List (Text × List FixtureFile)

namespace Catalogue

/-- Put a fixture behind the others of its category; categories stay in order. -/
def insert (f : FixtureFile) : Catalogue → Catalogue
  | [] => [(f.category, [f])]
  | (category, files) :: rest =>
    if category = f.category then (category, files ++ [f]) :: rest
    else if Text.before f.category category then (f.category, [f]) :: (category, files) :: rest
    else (category, files) :: insert f rest

/-- The catalogue of the fixtures below a directory: the categories in order, and the fixtures of
each in the order of their paths. -/
def ofTree : FileTree → Catalogue
  | .file _ => []
  | .directory entries =>
    ((FixtureFile.inside [] entries).mergeSort FixtureFile.precedes).foldl
      (fun catalogue f => insert f catalogue) []

/-- A request without the slashes around it. -/
def requestName (request : Text) : Text :=
  (((request.dropWhile (· == '/')).reverse).dropWhile (· == '/')).reverse

/-- Whether a request asks for a category: for it, or for one above it. -/
def covers (request category : Text) : Bool :=
  category = request || (request ++ ['/']).isPrefixOf category

/-- What requests have come to: the names of the categories asked for, and the requests that added
none to those before them. -/
structure Selection where
  categories : List Text
  idle : List Text

/-- Take one more request into account. -/
def Selection.ask (catalogue : Catalogue) (s : Selection) (request : Text) : Selection :=
  let added := (catalogue.map (·.1)).filter fun category =>
    covers request category && !s.categories.contains category
  ⟨s.categories ++ added, if added.isEmpty then s.idle ++ [request] else s.idle⟩

/-- What all requests come to. -/
def selection (catalogue : Catalogue) (requests : List Text) : Selection :=
  requests.foldl (Selection.ask catalogue) ⟨[], []⟩

/-- The categories that are asked for; without requests all of them. -/
def select (catalogue : Catalogue) (requests : List Text) : Catalogue :=
  if requests.isEmpty then catalogue
  else
    let categories := (selection catalogue requests).categories
    catalogue.filter fun (category, _) => categories.contains category

end Catalogue

end InterviewPlan
