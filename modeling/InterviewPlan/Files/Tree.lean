import InterviewPlan.Text.Basic

/-!
# Files

A tree stands for the files that a command may see below its working directory.  A path is a text
of names between slashes.  It is followed name by name: `.` and the empty name stay where they are,
`..` goes back, and every name but the last must lead to a directory.  Nothing is known of what
stands outside the tree, except that one may go further up.

## Main definitions

* `FileTree`: a file or a directory
* `FileTree.find`: what stands at a path
* `FileTree.readText`: the text at a path
* `FileTree.put`: the tree with one more file or directory
* `FileError`: why a file cannot be read
-/

namespace InterviewPlan

/-- Why a file cannot be read. -/
inductive FileError where
  | notFound
  | notDirectory
  | isDirectory
  /-- The bytes are no UTF-8. -/
  | notText
  /-- Anything else that the system reports. -/
  | other (reason : Text)
deriving DecidableEq

/-- The wording of the error. -/
def FileError.message : FileError → Text
  | notFound => "No such file or directory (os error 2)".toList
  | notDirectory => "Not a directory (os error 20)".toList
  | isDirectory => "Is a directory (os error 21)".toList
  | notText => "stream did not contain valid UTF-8".toList
  | other reason => reason

/-- A file with its bytes, or a directory with its entries by name. -/
inductive FileTree where
  | file (content : ByteArray)
  | directory (entries : List (Text × FileTree))

namespace FileTree

/-- The names of a path. -/
def names (path : Text) : List Text := Text.parts '/' path

/-- The tree is a directory. -/
def isDirectory : FileTree → Bool
  | file _ => false
  | directory _ => true

/-- The tree is a file. -/
def isFile (tree : FileTree) : Bool := !tree.isDirectory

/-- Follow names from a tree.  `above` are the directories that contain it, the nearest first. -/
def follow (above : List FileTree) (here : FileTree) : List Text → Except FileError FileTree
  | [] => .ok here
  | name :: rest =>
    match here with
    | .file _ => .error .notDirectory
    | .directory entries =>
      if name.isEmpty || name = ['.'] then follow above here rest
      else if name = ['.', '.'] then
        match above with
        | [] => follow [] (.directory []) rest
        | up :: above => follow above up rest
      else
        match entries.lookup name with
        | some tree => follow (here :: above) tree rest
        | none => .error .notFound

/-- What stands at a path. -/
def find (tree : FileTree) (path : Text) : Except FileError FileTree :=
  match path with
  | [] => .error .notFound
  | '/' :: outside => follow [] (.directory []) (names outside)
  | _ => follow [] tree (names path)

/-- The text of bytes in UTF-8. -/
def textOf (bytes : ByteArray) : Except FileError Text :=
  match String.fromUTF8? bytes with
  | some s => .ok s.toList
  | none => .error .notText

/-- The text of a file; a directory has none. -/
def readText : FileTree → Except FileError Text
  | file content => textOf content
  | directory _ => .error .isDirectory

/-- Set the tree under a name.  Two directories become one, otherwise the new tree counts. -/
def setEntry (name : Text) (tree : FileTree) : List (Text × FileTree) → List (Text × FileTree)
  | [] => [(name, tree)]
  | (n, t) :: rest =>
    if n ≠ name then (n, t) :: setEntry name tree rest
    else match t, tree with
      | .directory _, .directory [] => (n, t) :: rest
      | _, _ => (n, tree) :: rest

/-- Put a tree below a directory, with the directories that lead to it. -/
def putBelow (new : FileTree) (entries : List (Text × FileTree)) :
    List Text → List (Text × FileTree)
  | [] => entries
  | [name] => setEntry name new entries
  | name :: more =>
    let inner := match entries.lookup name with
      | some (.directory inner) => inner
      | _ => []
    setEntry name (.directory (putBelow new inner more)) entries

/-- Put a file or an empty directory at a path below the tree. -/
def put (tree : FileTree) (path : Text) (new : FileTree) : FileTree :=
  match tree with
  | .file _ => tree
  | .directory entries =>
    .directory (putBelow new entries
      ((names path).filter fun name => !name.isEmpty && name ≠ ['.']))

end FileTree

end InterviewPlan
