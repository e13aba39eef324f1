import InterviewPlan.Text.Basic

/-!
# The command line

The words of a command line are read one by one.  Options may stand before and after the name of
the command, and those before it are the ones that every command has.  A long option begins with
two hyphens and may carry its value behind an equals sign; short options are letters behind one
hyphen and may stand together, the value of the last one behind them.  Otherwise the value of an
option is the next word, which must not look like an option.  After a word of two hyphens nothing
is an option any more.

The first mistake, or the first request for help or the version, ends the reading.

## Main definitions

* `Command`: what is to be done
* `Invocation`: a command with the options that every command has
* `CommandLine.parse`: the invocation that a command line describes
-/

namespace InterviewPlan

/-- A block to work on: the file that holds it, its identifier and its label in the document. -/
structure BlockArgs where
  file : Text
  id : Text
  label : Option Text
deriving DecidableEq

/-- What is to be done. -/
inductive Command where
  /-- Write a plan as a block. -/
  | compile (file : Text)
  /-- Take the plan out of a block; `force` does so for any block. -/
  | extract (block : BlockArgs) (force : Bool)
  /-- Tell whether a block is the order block. -/
  | detect (block : BlockArgs)
  /-- Write an order block in its usual form. -/
  | normalize (block : BlockArgs)
  /-- Tell about every block of a document. -/
  | analyze (file : Text)
  /-- Check a document. -/
  | validate (file : Text)
  /-- Run the fixtures of some categories, or of all if none is named. -/
  | test (path : Text) (categories : List Text)
  /-- List the categories of fixtures. -/
  | listCategories (path : Text)
deriving DecidableEq

/-- A command with the options that every command has. -/
structure Invocation where
  command : Command
  noColor : Bool
  settings : Option Text
deriving DecidableEq

namespace CommandLine

/-- Why a command line leads to no command. -/
inductive Halt where
  /-- It is not understood. -/
  | misuse
  | help
  | version
deriving DecidableEq

/-- The options of all commands. -/
inductive Opt where
  | noColor | verbose | settings | help | version | id | label | force | category | listCategories
deriving DecidableEq

namespace Opt

/-- The name behind two hyphens. -/
def long : Opt → Text
  | noColor => "no-color".toList
  | verbose => "verbose".toList
  | settings => "config".toList
  | help => "help".toList
  | version => "version".toList
  | id => "id".toList
  | label => "label".toList
  | force => "force".toList
  | category => "category".toList
  | listCategories => "list-categories".toList

/-- The letter behind one hyphen. -/
def short? : Opt → Option Char
  | verbose => some 'v'
  | help => some 'h'
  | version => some 'V'
  | category => some 'c'
  | _ => none

/-- Whether the option has a value. -/
def takesValue : Opt → Bool
  | settings | id | label | category => true
  | _ => false

/-- Whether the option may be given more than once. -/
def repeats : Opt → Bool
  | verbose | category => true
  | _ => false

/-- The options that every command has. -/
def common : List Opt := [noColor, verbose, settings, help]

end Opt

/-- The names of commands. -/
inductive Verb where
  | compile | extract | detect | normalize | analyze | validate | test | help
deriving DecidableEq

namespace Verb

/-- All names. -/
def all : List Verb := [compile, extract, detect, normalize, analyze, validate, test, help]

/-- The name as it is written. -/
def name : Verb → Text
  | compile => "compile".toList
  | extract => "extract".toList
  | detect => "detect".toList
  | normalize => "normalize".toList
  | analyze => "analyze".toList
  | validate => "validate".toList
  | test => "test".toList
  | help => "help".toList

/-- The command of a name. -/
def ofName? (t : Text) : Option Verb := all.find? (·.name = t)

/-- The options that may stand behind the name. -/
def options : Verb → List Opt
  | compile | analyze | validate => Opt.common
  | extract => Opt.common ++ [.id, .label, .force]
  | detect | normalize => Opt.common ++ [.id, .label]
  | test => Opt.common ++ [.category, .listCategories]
  | help => []

end Verb

/-- The options that may stand before the name of the command. -/
def leadingOptions : List Opt := Opt.common ++ [.version]

/-- Options with their values, in the order in which they were given. -/
abbrev Given := List (Opt × Text)

/-- Whether an option was given. -/
def Given.has (given : Given) (o : Opt) : Bool := given.any (·.1 = o)

/-- The value of an option that is given at most once. -/
def Given.value? (given : Given) (o : Opt) : Option Text := given.lookup o

/-- All values of an option. -/
def Given.values (given : Given) (o : Opt) : List Text :=
  (given.filter (·.1 = o)).map (·.2)

/-- Give one more option.  Only some options may be repeated, and the settings need a name. -/
def Given.add (given : Given) (o : Opt) (value : Text) : Except Halt Given :=
  if o = .help then .error .help
  else if o = .version then .error .version
  else if given.has o && !o.repeats then .error .misuse
  else if o = .settings && value.isEmpty then .error .misuse
  else .ok (given ++ [(o, value)])

/-- How far the reading has come. -/
structure Reading where
  /-- The options before the name of the command. -/
  leading : Given
  /-- The name of the command, when it has been read. -/
  verb : Option Verb
  /-- The options behind the name. -/
  own : Given
  /-- The words behind the name that are neither options nor values. -/
  operands : List Text
  /-- The option that the next word is the value of. -/
  pending : Option Opt
  /-- Nothing that follows is an option. -/
  operandsOnly : Bool

namespace Reading

/-- Nothing has been read. -/
def start : Reading := ⟨[], none, [], [], none, false⟩

/-- The options that may be given now. -/
def options (r : Reading) : List Opt :=
  match r.verb with
  | none => leadingOptions
  | some verb => verb.options

/-- Give an option. -/
def give (r : Reading) (o : Opt) (value : Text) : Except Halt Reading :=
  match r.verb with
  | none => return { r with leading := ← r.leading.add o value, pending := none }
  | some _ => return { r with own := ← r.own.add o value, pending := none }

/-- Read an option by its name, with the value behind its equals sign if there is one. -/
def long (r : Reading) (word : Text) : Except Halt Reading :=
  let name := word.takeWhile (· ≠ '=')
  match r.options.find? (·.long = name) with
  | none => .error .misuse
  | some o =>
    match word.dropWhile (· ≠ '=') with
    | _ :: value => if o.takesValue then r.give o value else .error .misuse
    | [] => if o.takesValue then .ok { r with pending := some o } else r.give o []

/-- Read options by their letters.  What follows the letter of an option with a value is the value,
an equals sign before it aside. -/
def short (r : Reading) : Text → Except Halt Reading
  | [] => .ok r
  | letter :: more =>
    match r.options.find? (·.short? = some letter) with
    | none => .error .misuse
    | some o =>
      if o.takesValue then
        match more with
        | [] => .ok { r with pending := some o }
        | '=' :: value => r.give o value
        | value => r.give o value
      else do short (← r.give o []) more

/-- Read a word that is neither an option nor a value: the name of the command, or what the command
works on. -/
def operand (r : Reading) (word : Text) : Except Halt Reading :=
  match r.verb with
  | none =>
    match Verb.ofName? word with
    | some verb =>
      if r.operandsOnly then .error .misuse
      else .ok { r with verb := some verb, operandsOnly := verb = .help }
    | none => .error .misuse
  | some _ => if r.operands.isEmpty then .ok { r with operands := [word] } else .error .misuse

/-- Read the next word. -/
def next (r : Reading) (word : Text) : Except Halt Reading :=
  match r.pending with
  | some o =>
    match word with
    | '-' :: _ :: _ => .error .misuse
    | value => r.give o value
  | none =>
    if r.operandsOnly then r.operand word
    else match word with
      | ['-', '-'] => .ok { r with operandsOnly := true }
      | '-' :: '-' :: name => r.long name
      | '-' :: c :: letters => r.short (c :: letters)
      | _ => r.operand word

/-- The name of the settings file: the one given last on the command line, or else the preset one.
A preset name that is empty is a mistake, unless it is overruled in both places. -/
def settings (r : Reading) (preset : Option Text) : Except Halt (Option Text) :=
  let own := r.own.value? .settings
  let leading := r.leading.value? .settings
  if preset = some [] && !(own.isSome && leading.isSome) then .error .misuse
  else .ok ((own.or leading).or preset)

/-- The command that has been read. -/
def command (r : Reading) (verb : Verb) (file : Text) : Except Halt Command :=
  let block : BlockArgs := ⟨file, (r.own.value? .id).getD [], r.own.value? .label⟩
  match verb with
  | .compile => .ok (.compile file)
  | .extract => .ok (.extract block (r.own.has .force))
  | .detect => .ok (.detect block)
  | .normalize => .ok (.normalize block)
  | .analyze => .ok (.analyze file)
  | .validate => .ok (.validate file)
  | .test =>
    .ok (if r.own.has .listCategories then .listCategories file
      else .test file (r.own.values .category))
  | .help => .error (if (Verb.ofName? file).isSome then .help else .misuse)

/-- The invocation that has been read. -/
def finish (r : Reading) (preset : Option Text) : Except Halt Invocation :=
  match r.verb, r.operands, r.pending with
  | some .help, [], none => .error .help
  | some verb, [file], none => do
    let command ← r.command verb file
    let noColor := r.leading.has .noColor || r.own.has .noColor
    return ⟨command, noColor, ← r.settings preset⟩
  | _, _, _ => .error .misuse

end Reading

/-- The invocation that the words of a command line describe.  `preset` names a settings file for
command lines that name none. -/
def parse (preset : Option Text) (words : List Text) : Except Halt Invocation := do
  (← words.foldlM Reading.next Reading.start).finish preset

end CommandLine

end InterviewPlan
