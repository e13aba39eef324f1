import InterviewPlan.Toml.Value

/-!
# Settings

A settings file may set the level of the log, whether output is coloured, and whether JSON is
indented.  Whatever it leaves out keeps its usual value, and it must hold nothing else.

## Main definitions

* `Settings`: the settings, with their usual values
* `Settings.parse`: the settings of a file
-/

namespace InterviewPlan

/-- The settings of the command line. -/
structure Settings where
  logLevel : Text := "warn".toList
  color : Bool := true
  prettyJson : Bool := true
deriving DecidableEq

namespace Settings

/-- The file that is read when none is named. -/
def defaultFile : Text := "order.toml".toList

/-- The fields of a section.  They stand in a table under their names, or in a list by position,
where anything after the last field is ignored. -/
def fields? (names : List Text) : Toml → Option Toml.Entries
  | .table _ entries => if entries.all (names.contains ·.1) then some entries else none
  | .list items => some (names.zip items)
  | _ => none

/-- The settings with a section about the log. -/
def withLog? (settings : Settings) (log : Toml) : Option Settings := do
  match (← fields? ["level".toList] log).lookup "level".toList with
  | none => some settings
  | some (.str level) => some { settings with logLevel := level }
  | some _ => none

/-- The settings with a section about output. -/
def withOutput? (settings : Settings) (output : Toml) : Option Settings := do
  let fields ← fields? ["color".toList, "pretty_json".toList] output
  let color ← truth? settings.color (fields.lookup "color".toList)
  let prettyJson ← truth? settings.prettyJson (fields.lookup "pretty_json".toList)
  return { settings with color, prettyJson }
where
  /-- A truth value that may be left out. -/
  truth? (usual : Bool) : Option Toml → Option Bool
    | none => some usual
    | some (.bool b) => some b
    | some _ => none

/-- The settings with one more section. -/
def withSection? (settings : Settings) (name : Text) (value : Toml) : Option Settings :=
  if name = "log".toList then settings.withLog? value
  else if name = "output".toList then settings.withOutput? value
  else none

/-- The settings of the entries of a file. -/
def ofEntries? (entries : Toml.Entries) : Option Settings :=
  entries.foldlM (fun settings (name, value) => settings.withSection? name value) {}

/-- The settings of a file, or what is said about it; `read` reads its entries. -/
def parse (read : Toml.Source) (t : Text) : Except (Option Text) Settings := do
  match ofEntries? (← read t) with
  | some settings => .ok settings
  | none => .error none

end Settings

end InterviewPlan
