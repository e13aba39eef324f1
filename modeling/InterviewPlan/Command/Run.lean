import InterviewPlan.Command.Line
import InterviewPlan.Command.Settings
import InterviewPlan.Document.Issue
import InterviewPlan.Fixture.Report
import InterviewPlan.Json.Writer
import InterviewPlan.Plan.Codec
import InterviewPlan.Toml.Reader

/-!
# Running commands

A command reads its settings, then the file it works on, and answers with what it prints, what it
reports, and an exit code: 0 if all is well, 1 if the answer is negative, 2 if it could not do its
work.  It sees the disk through a function from paths to what stands there.

## Main definitions

* `World`: what a command can see
* `Outcome`: what it answers
* `Command.run`: the answer of a command
* `CommandLine.answer`: the answer to a whole command line
-/

namespace InterviewPlan

/-- What a command can see: the bytes given to it, what stands at each path, and the name of the
settings file that is preset. -/
structure World where
  input : ByteArray
  find : Text → Except FileError FileTree
  preset : Option Text

/-- What a command answers: what it prints, the lines that it reports, and its exit code. -/
structure Outcome where
  output : Text
  report : List Text
  exit : Nat
deriving DecidableEq

namespace Outcome

/-- A line is printed, and all is well. -/
def printed (line : Text) : Outcome := ⟨line ++ ['\n'], [], 0⟩

/-- The work could not be done, for a reason. -/
def failed (reason : Text) : Outcome := ⟨[], ["error: ".toList ++ reason], 2⟩

/-- The answer that a report makes. -/
def ofReport (r : Report) : Outcome := ⟨[], r.lines, if r.passed then 0 else 1⟩

end Outcome

/-- How output is to look. -/
structure Style where
  color : Bool
  pretty : Bool

/-- The text of a JSON value in a style. -/
def Style.json (style : Style) (value : Json) : Text :=
  if style.pretty then value.pretty else value.compact

namespace Command

/-- A name between single quotation marks. -/
def quoted (name : Text) : Text := '\'' :: name ++ ['\'']

/-- The name that stands for the bytes given to the command. -/
def inputName : Text := ['-']

/-- The text of a file, or of the bytes given to the command. -/
def read (world : World) (file : Text) : Except Text Text :=
  if file = inputName then
    (FileTree.textOf world.input).mapError fun e => "cannot read stdin: ".toList ++ e.message
  else
    (world.find file >>= FileTree.readText).mapError fun e =>
      "cannot read ".toList ++ quoted file ++ ": ".toList ++ e.message

/-- Answer to the text of a file. -/
def reading (world : World) (file : Text) (answer : Text → Outcome) : Outcome :=
  match read world file with
  | .ok t => answer t
  | .error reason => .failed reason

/-- The answer for a block out of which no plan can be taken. -/
def notExtractable (file : Text) : Outcome :=
  ⟨[], [quoted file ++ " is not an extractable order block".toList], 1⟩

/-- The answer to the text of a plan: its block. -/
def compileText (file t : Text) : Outcome :=
  match Plan.parse? t with
  | some plan => .printed (Script.compile plan)
  | none => .failed (quoted file ++ " is not a valid order tree".toList)

/-- The answer to a plan that was taken out of a block, if there is one. -/
def withPlan (file : Text) (plan : Option Plan) (write : Plan → Text) : Outcome :=
  match plan with
  | some plan => .printed (write plan)
  | none => notExtractable file

/-- The answer to a document: its blocks. -/
def analyzeText (style : Style) (t : Text) : Outcome :=
  match Document.analyze Yaml.parse t with
  | .ok blocks => .printed (style.json (.arr (blocks.map Block.toJson)))
  | .error e => .failed e.message

/-- The answer to a document: its problems. -/
def validateText (file t : Text) : Outcome :=
  let issues := Document.validate Yaml.parse t
  if issues.isEmpty then ⟨[], ["ok: ".toList ++ file ++ " is valid".toList], 0⟩
  else ⟨[], issues.map fun issue => issue.level.name ++ ": ".toList ++ issue.message,
    if issues.any Issue.isError then 1 else 0⟩

/-- The answer of a command. -/
def run (world : World) (style : Style) : Command → Outcome
  | compile file => reading world file (compileText file)
  | extract block force => reading world block.file fun t =>
    let plan := if force then Script.extract t else Script.extractOrder t block.id block.label
    withPlan block.file plan fun plan => style.json plan.toJson
  | detect block => reading world block.file fun t =>
    if Detect.isOrder t block.id block.label then .printed "true".toList
    else ⟨"false\n".toList, [], 1⟩
  | normalize block => reading world block.file fun t =>
    withPlan block.file (Script.extractOrder t block.id block.label) Script.compile
  | analyze file => reading world file (analyzeText style)
  | validate file => reading world file (validateText file)
  | test path requests =>
    .ofReport (Report.ofTree Toml.parse style.color path (world.find path) requests)
  | listCategories path => .ofReport (Report.categories path (world.find path))

end Command

namespace Settings

/-- The settings in the file of a name. -/
def load (world : World) (name : Text) : Except Text Settings := do
  let t ← (world.find name >>= FileTree.readText).mapError fun e =>
    "cannot read config ".toList ++ Command.quoted name ++ ": ".toList ++ e.message
  (Settings.parse Toml.parse t).mapError
    (Text.withReason ("invalid config ".toList ++ Command.quoted name))

/-- The settings in the file that is named, or else in the usual one if there is such a file. -/
def find (world : World) (named : Option Text) : Except Text Settings :=
  match named with
  | some name => load world name
  | none =>
    match world.find defaultFile with
    | .ok (.file _) => load world defaultFile
    | _ => .ok {}

end Settings

/-- The answer of an invocation. -/
def Invocation.run (world : World) (invocation : Invocation) : Outcome :=
  match Settings.find world invocation.settings with
  | .error reason => .failed reason
  | .ok settings =>
    invocation.command.run world ⟨settings.color && !invocation.noColor, settings.prettyJson⟩

namespace CommandLine

/-- The name and the version of the program. -/
def versionLine : Text := "orderc 0.1.0".toList

/-- How the program is used. -/
def usage : List Text :=
  ["Usage: orderc [OPTIONS] COMMAND ...".toList, "Commands: ".toList ++
    Text.joinWith ", ".toList (Verb.all.map Verb.name)]

/-- The answer to a command line that leads to no command. -/
def Halt.outcome : Halt → Outcome
  | misuse => ⟨[], usage, 2⟩
  | help => ⟨Text.unlines usage ++ ['\n'], [], 0⟩
  | version => .printed versionLine

/-- The answer to a command line. -/
def answer (world : World) (words : List Text) : Outcome :=
  match parse world.preset words with
  | .ok invocation => invocation.run world
  | .error halt => halt.outcome

end CommandLine

end InterviewPlan
