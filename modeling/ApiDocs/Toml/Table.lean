import ApiDocs.Json.Basic

/-!
# TOML tables

A TOML document is a table that is filled line by line. A table may be defined by its own header,
be implied by the header of a table inside it, or come from a key with dots; which of them it was
decides what may still be added to it.

* `Toml.Entry`: a value, a table or an array of tables.
* `Toml.openTable?`, `Toml.appendTable?`: the effect of a header.
* `Toml.insertDotted?`: the effect of a key and its value.
* `Toml.fieldsToJson`: a finished table.
-/

namespace ApiDocs

namespace Toml

/-- How a table came to be. -/
inductive Origin where
  /-- By its own header. -/
  | header
  /-- By the header of a table inside it. -/
  | implied
  /-- By a key with dots. -/
  | dotted
  deriving DecidableEq

/-- What a key of a table stands for. -/
inductive Entry where
  /-- A value that is complete. -/
  | value (v : Json)
  | table (origin : Origin) (entries : List (Text × Entry))
  /-- An array of tables, each defined by a header of its own. -/
  | tables (elements : List (List (Text × Entry)))

/-- The entries of a table. -/
abbrev Entries := List (Text × Entry)

/-- What a key stands for. -/
def lookup? (key : Text) (es : Entries) : Option Entry := (es.find? (·.1 == key)).map (·.2)

/-- The entries with one of them set. -/
def set (key : Text) (e : Entry) : Entries → Entries
  | [] => [(key, e)]
  | (k, old) :: rest => if k == key then (k, e) :: rest else (k, old) :: set key e rest

/-- Changes the table that a path of keys leads to. Tables on the way that do not exist are
implied; of an array of tables the last one counts. -/
def changeAt? (change? : Entries → Option Entries) : List Text → Entries → Option Entries
  | [], es => change? es
  | key :: path, es =>
    match lookup? key es with
    | none => (changeAt? change? path []).map fun inner => set key (.table .implied inner) es
    | some (.table origin inner) =>
      (changeAt? change? path inner).map fun inner => set key (.table origin inner) es
    | some (.tables elements) => do
      let inner ← changeAt? change? path (← elements.getLast?)
      some (set key (.tables (elements.dropLast ++ [inner])) es)
    | some (.value _) => none

/-- Defines a table by its header. A table may be defined once; one that was implied is not
defined yet. -/
def openTable? (key : Text) (es : Entries) : Option Entries :=
  match lookup? key es with
  | none => some (set key (.table .header []) es)
  | some (.table .implied inner) => some (set key (.table .header inner) es)
  | _ => none

/-- Adds a table to an array of tables. -/
def appendTable? (key : Text) (es : Entries) : Option Entries :=
  match lookup? key es with
  | none => some (set key (.tables [[]]) es)
  | some (.tables elements) => some (set key (.tables (elements ++ [[]])) es)
  | _ => none

/-- Adds a value under a key with dots. No key is set twice, and no table with a header of its own
is entered; of an array of tables the last one is entered, and only on the way to a table in it.
A table that was implied counts as one of a key with dots as soon as it gets a value. -/
def insertDotted? (v : Json) : List Text → Entries → Option Entries
  | [], _ => none
  | [key], es =>
    match lookup? key es with
    | none => some (set key (.value v) es)
    | some _ => none
  | key :: path, es =>
    match lookup? key es with
    | none => (insertDotted? v path []).map fun inner => set key (.table .dotted inner) es
    | some (.table .dotted inner) =>
      (insertDotted? v path inner).map fun inner => set key (.table .dotted inner) es
    | some (.table .implied inner) =>
      let origin := if path.length == 1 then .dotted else .implied
      (insertDotted? v path inner).map fun inner => set key (.table origin inner) es
    | some (.tables elements) =>
      if path.length == 1 then none
      else do
        let inner ← insertDotted? v path (← elements.getLast?)
        some (set key (.tables (elements.dropLast ++ [inner])) es)
    | _ => none

mutual

def Entry.toJson : Entry → Json
  | .value v => v
  | .table _ entries => .object (fieldsToJson entries)
  | .tables elements => .array (elementsToJson elements)

def fieldsToJson : List (Text × Entry) → List (Text × Json)
  | [] => []
  | (key, e) :: rest => (key, e.toJson) :: fieldsToJson rest

def elementsToJson : List (List (Text × Entry)) → List Json
  | [] => []
  | es :: rest => .object (fieldsToJson es) :: elementsToJson rest

end

end Toml

end ApiDocs
