import InterviewPlan.Text.Scan

/-!
# TOML settings

A settings file is a table of named values.  The values are texts, truth values, lists and tables;
no setting is a number, a date or a list of tables under headers, so a file with one of these is
not read at all.

A table remembers how it came to be, since that decides who may still add to it: a table under a
header is not opened twice, a table made by dotted keys takes further dotted keys only, and a table
between braces is complete.

## Main definitions

* `Toml`: the values
* `Toml.openTable?`: the table of a header
* `Toml.put?`: a value under a dotted key
-/

namespace InterviewPlan

/-- How a table came to be. -/
inductive Toml.Origin where
  /-- Written between braces. -/
  | braces
  /-- Opened by a header of its own. -/
  | header
  /-- Named by the header of a table inside it. -/
  | implied
  /-- Named by a dotted key. -/
  | dotted
deriving DecidableEq

/-- A value of a settings file. -/
inductive Toml where
  | str (t : Text)
  | bool (b : Bool)
  | list (items : List Toml)
  | table (origin : Toml.Origin) (entries : List (Text × Toml))

namespace Toml

/-- The entries of a table. -/
abbrev Entries := List (Text × Toml)

/-- A reader of settings files: the entries of a text. -/
abbrev Source := Text.Source Entries

/-- The entries with a new value for a key; a new key goes to the end. -/
def set (key : Text) (value : Toml) : Entries → Entries
  | [] => [(key, value)]
  | (k, v) :: rest => if k = key then (k, value) :: rest else (k, v) :: set key value rest

/-- Put a value under a key that may be dotted.  The tables on the way must be neither complete nor
opened by a header, and the last of them must have been named by dotted keys. -/
def put? (entries : Entries) (key : List Text) (value : Toml) : Option Entries :=
  match key with
  | [] => none
  | [name] => if (entries.lookup name).isSome then none else some (entries ++ [(name, value)])
  | name :: next :: more =>
    match entries.lookup name with
    | none => do
      let inner ← put? [] (next :: more) value
      return entries ++ [(name, .table .dotted inner)]
    | some (.table origin inner) =>
      if origin = .braces || origin = .header || (more.isEmpty && origin != .dotted) then none
      else do
        let inner ← put? inner (next :: more) value
        return set name (.table origin inner) entries
    | some _ => none

/-- Open the table of a header.  The tables on the way may have been opened by other headers, the
table itself may only have been implied by one. -/
def openTable? (entries : Entries) : List Text → Option Entries
  | [] => none
  | [name] =>
    match entries.lookup name with
    | none => some (entries ++ [(name, .table .header [])])
    | some (.table .implied inner) => some (set name (.table .header inner) entries)
    | some _ => none
  | name :: next :: more =>
    match entries.lookup name with
    | none => do
      let inner ← openTable? [] (next :: more)
      return entries ++ [(name, .table .implied inner)]
    | some (.table .braces _) => none
    | some (.table origin inner) => do
      let inner ← openTable? inner (next :: more)
      return set name (.table origin inner) entries
    | some _ => none

/-- Put a value into the table of a header that has been opened. -/
def putUnder? (entries : Entries) (header key : List Text) (value : Toml) : Option Entries :=
  match header with
  | [] => put? entries key value
  | name :: rest =>
    match entries.lookup name with
    | some (.table origin inner) => do
      let inner ← putUnder? inner rest key value
      return set name (.table origin inner) entries
    | _ => none

end Toml

end InterviewPlan
