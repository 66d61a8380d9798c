/-!
The values of a TOML document, and how its tables grow. A table may be named on several lines; which
of them may add to it depends on how it came to be.
-/
set_option autoImplicit false

namespace LingoSource

inductive TableKind
  /-- By a header of its own; the document itself counts as one. -/
  | header
  /-- On the way to the table of a header. -/
  | parent
  /-- On the way of a dotted key. -/
  | dotted
  /-- In braces, which close it. -/
  | inline
  deriving DecidableEq, Repr

/-- A value; of the kinds that no setting takes, only the kind is kept. -/
inductive Toml
  | text (s : String)
  | integer (n : Int)
  | float
  | boolean
  | moment
  | array (items : List Toml)
  | table (kind : TableKind) (entries : List (String × Toml))
  /-- The tables of an array of tables, each with a header of its own. -/
  | tables (elements : List (List (String × Toml)))

/-- A key of one or more parts: all but the last name the tables on the way. -/
structure DottedKey where
  way : List String
  name : String

namespace Toml

abbrev Entries := List (String × Toml)

namespace Entries

def put (key : String) (v : Toml) : Entries → Entries
  | [] => [(key, v)]
  | (k, w) :: rest => if k = key then (k, v) :: rest else (k, w) :: put key v rest

/-- Changes the table at the end of a way. Tables that are missing on it are made, the last table
stands for an array of tables, and a way that passes anything else leads nowhere. A dotted key does
not pass a table that has a header, and nothing passes a table in braces. -/
def changeAt (dotted : Bool) (change : TableKind → Entries → Option Entries) :
    List String → TableKind → Entries → Option Entries
  | [], kind, entries => change kind entries
  | key :: way, _, entries =>
    match entries.lookup key with
    | none => do
      let kind := if dotted then .dotted else .parent
      let child ← changeAt dotted change way kind []
      return entries.put key (.table kind child)
    | some (.table kind child) =>
      if kind = .inline ∨ (dotted ∧ kind = .header) then none
      else do
        let child ← changeAt dotted change way kind child
        return entries.put key (.table kind child)
    | some (.tables elements) => do
      let last ← changeAt dotted change way .header (← elements.getLast?)
      return entries.put key (.tables (elements.dropLast ++ [last]))
    | some _ => none

/-- Adds an entry. No key is set twice, and a dotted key adds only to a table made by dotted keys.
-/
def add (key : DottedKey) (v : Toml) (kind : TableKind) (entries : Entries) : Option Entries :=
  changeAt true
    (fun kind entries =>
      if (key.way ≠ [] ∧ kind ≠ .dotted) ∨ (entries.lookup key.name).isSome then none
      else some (entries.put key.name v))
    key.way kind entries

def openTable (key : DottedKey) (entries : Entries) : Option Entries :=
  changeAt false
    (fun _ entries =>
      match entries.lookup key.name with
      | none => some (entries.put key.name (.table .header []))
      | some (.table .parent child) => some (entries.put key.name (.table .header child))
      | some _ => none)
    key.way .header entries

def openElement (key : DottedKey) (entries : Entries) : Option Entries :=
  changeAt false
    (fun _ entries =>
      match entries.lookup key.name with
      | none => some (entries.put key.name (.tables [[]]))
      | some (.tables elements) => some (entries.put key.name (.tables (elements ++ [[]])))
      | some _ => none)
    key.way .header entries

end Entries

end Toml

end LingoSource
