import CallResolution.Toml.Value

/-!
# Building tables

Tables grow while a document is read.  A table may be opened by a header only
once, a key may be set only once, and what a value holds is closed: neither a header
nor a dotted key reaches into it.

A table that only lies on the way to another may be opened by a header later if a
header implied it, and never if a dotted key implied it.  Dotted keys may extend
only tables that dotted keys made.
-/

namespace CallResolution
namespace Toml

/-- How a table came about. -/
inductive TableOrigin where
  /-- Opened by a header, or the document itself. -/
  | header
  /-- On the way to a table that a header opened. -/
  | impliedByHeader
  /-- On the way to a value that a dotted key set. -/
  | impliedByKey
  deriving DecidableEq, Repr

/-- What a key stands for while its document is read. -/
inductive Node where
  /-- A value, which is closed. -/
  | value (value : Value)
  | table (origin : TableOrigin) (entries : List (String × Node))
  /-- The tables of an array of tables; the last one is open. -/
  | tables (items : List (List (String × Node)))

/-- A table that is being built. -/
structure OpenTable where
  origin : TableOrigin
  entries : List (String × Node)

namespace OpenTable

/-- A table without entries. -/
def empty (origin : TableOrigin) : OpenTable where
  origin := origin
  entries := []

def find? (table : OpenTable) (key : String) : Option Node :=
  table.entries.lookup key

/-- Set a key, in place of what it stood for. -/
def set (table : OpenTable) (key : String) (node : Node) : OpenTable :=
  if table.entries.any (·.1 == key) then
    { table with
      entries := table.entries.map fun entry => if entry.1 == key then (key, node) else entry }
  else
    { table with entries := table.entries ++ [(key, node)] }

/-- Follow a path, make the tables that are missing, and change the table at its end.
`dotted` says whether the path is part of a dotted key. -/
def alter (dotted : Bool) (change : OpenTable → Option OpenTable) :
    List String → OpenTable → Option OpenTable
  | [], table => change table
  | key :: rest, table =>
      match table.find? key with
      | none => do
          let implied := if dotted then .impliedByKey else .impliedByHeader
          let inner ← alter dotted change rest (empty implied)
          some (table.set key (.table inner.origin inner.entries))
      | some (.value _) => none
      | some (.table origin entries) =>
          if dotted = true ∧ origin = .header then
            none
          else do
            let inner ← alter dotted change rest ⟨origin, entries⟩
            some (table.set key (.table inner.origin inner.entries))
      | some (.tables items) => do
          let inner ← alter dotted change rest ⟨.header, items.getLast?.getD []⟩
          some (table.set key (.tables (items.dropLast ++ [inner.entries])))

/-- Set a key that is reached through `path`, which is empty for a plain key. -/
def insert (path : List String) (key : String) (value : Value) (table : OpenTable) :
    Option OpenTable :=
  table.alter true
    (fun target =>
      if (target.origin = .impliedByKey ↔ path = []) then
        none
      else
        match target.find? key with
        | some _ => none
        | none => some (target.set key (.value value)))
    path

/-- Open the table that a header names. -/
def openTable (path : List String) (table : OpenTable) : Option OpenTable :=
  match path.getLast? with
  | none => none
  | some key =>
      table.alter false
        (fun target =>
          match target.find? key with
          | none => some (target.set key (.table .header []))
          | some (.table .impliedByHeader entries) =>
              some (target.set key (.table .header entries))
          | some _ => none)
        path.dropLast

/-- Append a table to the array of tables that a header names. -/
def appendTable (path : List String) (table : OpenTable) : Option OpenTable :=
  match path.getLast? with
  | none => none
  | some key =>
      table.alter false
        (fun target =>
          match target.find? key with
          | none => some (target.set key (.tables [[]]))
          | some (.tables items) => some (target.set key (.tables (items ++ [[]])))
          | some _ => none)
        path.dropLast

end OpenTable

mutual

/-- The value of a finished node. -/
def Node.close : Node → Value
  | .value value => value
  | .table _ entries => .table (closeEntries entries)
  | .tables items => .array (closeTables items)

/-- The entries of a finished table. -/
def closeEntries : List (String × Node) → List (String × Value)
  | [] => []
  | (key, node) :: rest => (key, node.close) :: closeEntries rest

/-- The tables of a finished array of tables. -/
def closeTables : List (List (String × Node)) → List Value
  | [] => []
  | entries :: rest => .table (closeEntries entries) :: closeTables rest

end

end Toml
end CallResolution
