/-!
# Values of TOML documents

A document is a table of tables.  A table remembers how it came about, because that decides what may still be added to it:
a header may be given once, dotted keys add only to tables that dotted keys made, and a table written as a value is
finished.
-/

namespace TapeLang.Toml

/-- The name of an entry. -/
abbrev Key := String

/-- How a table came about. -/
inductive Origin where
  /-- It is written as a value. -/
  | literal
  /-- It has a header of its own. -/
  | header
  /-- It is on the way to a table with a header. -/
  | implied
  /-- It is on the way to an entry with a dotted key. -/
  | dotted
deriving DecidableEq

/-- A value.  Of numbers with a fraction and of points in time nothing but their kind is kept. -/
inductive Value where
  | string (text : List Char)
  | integer (value : Int)
  | float
  | bool (value : Bool)
  | time
  /-- An array written as a value. -/
  | array (items : List Value)
  | table (origin : Origin) (entries : List (Key × Value))
  /-- The tables of a repeated header, last one first, each by its entries. -/
  | tables (items : List (List (Key × Value)))

/-- The entries of a table, last one first. -/
abbrev Entries := List (Key × Value)

namespace Entries

/-- The value of a key. -/
def get? (entries : Entries) (key : Key) : Option Value := (entries.find? (·.1 = key)).map (·.2)

/-- Gives a key that has a value another one. -/
def put (entries : Entries) (key : Key) (v : Value) : Entries := entries.map fun e => if e.1 = key then (key, v) else e

/-- Gives a new key a value. -/
def add (entries : Entries) (key : Key) (v : Value) : Option Entries :=
  if (entries.get? key).isSome then none else some ((key, v) :: entries)

/-- Changes the table at the end of a path by `f`, which is told how that table came about.  Tables that are missing on
the way are made.  Of a repeated header the last table is meant.  A path of a dotted key leads only through tables that
no header names. -/
def change (made : Origin) (f : Origin → Entries → Option Entries) :
    List Key → Origin → Entries → Option Entries
  | [], origin, entries => f origin entries
  | key :: path, _, entries =>
    match entries.get? key with
    | none => (change made f path made []).map fun child => (key, .table made child) :: entries
    | some (.table origin child) =>
      if origin = .literal ∨ (made = .dotted ∧ origin = .header) then none
      else (change made f path origin child).map fun child => entries.put key (.table origin child)
    | some (.tables (child :: items)) =>
      (change made f path .header child).map fun child => entries.put key (.tables (child :: items))
    | some _ => none

/-- Gives a dotted key a value.  The table that the key is in must be one that dotted keys made, unless the key has no
dots. -/
def assign (path : List Key) (key : Key) (v : Value) (entries : Entries) : Option Entries :=
  if path.isEmpty then entries.add key v
  else change .dotted (fun origin es => if origin = .dotted then es.add key v else none) path .header entries

/-- Takes note of a header. -/
def openTable (path : List Key) (key : Key) (entries : Entries) : Option Entries :=
  change .implied
    (fun _ es =>
      match es.get? key with
      | none => some ((key, .table .header []) :: es)
      | some (.table .implied child) => some (es.put key (.table .header child))
      | some _ => none)
    path .header entries

/-- Takes note of a header that may be repeated. -/
def openRepeated (path : List Key) (key : Key) (entries : Entries) : Option Entries :=
  change .implied
    (fun _ es =>
      match es.get? key with
      | none => some ((key, .tables [[]]) :: es)
      | some (.tables items) => some (es.put key (.tables ([] :: items)))
      | some _ => none)
    path .header entries

end Entries
end TapeLang.Toml
