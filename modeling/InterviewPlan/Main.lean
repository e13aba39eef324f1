import InterviewPlan.Command.Run

/-!
# The program

Before the command runs, everything that it may look at is fetched from the disk; afterwards its
answer is printed.
-/

namespace InterviewPlan

namespace Main

/-- The cause of a failure of the system. -/
def cause : IO.Error → FileError
  | .noFileOrDirectory .. => .notFound
  | .inappropriateType .. => .notDirectory
  | e => .other (toString e).toList

/-- What stands at a path of the disk.  What directories hold is fetched only if `deep` says so, and
entries that cannot be looked at are left out. -/
partial def fetch (deep : Bool) (path : String) : IO FileTree := do
  let here ← IO.FS.realPath path
  if !(← here.isDir) then return .file (← IO.FS.readBinFile path)
  if !deep then return .directory []
  let entries ← (← here.readDir).toList.filterMapM fun entry =>
    try return some (entry.fileName.toList, ← fetch deep entry.path.toString)
    catch _ => return none
  return .directory entries

/-- What stands at a path of the disk, or why nothing can be said. -/
def lookAt (deep : Bool) (path : Text) : IO (Text × Except FileError FileTree) := do
  try return (path, .ok (← fetch deep (String.ofList path)))
  catch e => return (path, .error (cause e))

/-- The path that a command looks at, and whether it looks into directories. -/
def target : Command → Text × Bool
  | .compile file | .analyze file | .validate file => (file, false)
  | .extract block _ | .detect block | .normalize block => (block.file, false)
  | .test path _ | .listCategories path => (path, true)

/-- Everything that the words of a command line ask for. -/
def world (preset : Option Text) (words : List Text) : IO World := do
  let (input, found) ← match CommandLine.parse preset words with
    | .error _ => pure (ByteArray.empty, [])
    | .ok invocation => do
      let settings ← lookAt false (invocation.settings.getD Settings.defaultFile)
      let (path, deep) := target invocation.command
      if path = Command.inputName && !deep then
        pure (← (← IO.getStdin).readBinToEnd, [settings])
      else pure (ByteArray.empty, [← lookAt deep path, settings])
  return ⟨input, fun path => (found.lookup path).getD (.error .notFound), preset⟩

end Main

end InterviewPlan

open InterviewPlan in
/-- Answer the command line. -/
def main (args : List String) : IO UInt32 := do
  let words := args.map String.toList
  let preset := (← IO.getEnv "ORDER_CONFIG").map String.toList
  let outcome := CommandLine.answer (← Main.world preset words) words
  (← IO.getStdout).putStr (String.ofList outcome.output)
  for line in outcome.report do
    (← IO.getStderr).putStrLn (String.ofList line)
  return UInt32.ofNat outcome.exit
