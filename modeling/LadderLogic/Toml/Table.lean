/-
Tables while they are being written down.

A table is defined by its header, by the names in front of another header, or by the
names in front of the last one of a dotted key.  Each way has its own say in how the
table may be continued: a table has one header, dotted keys do not lead through a table
that has one, and a table that dotted keys lead through gets none.
-/

import LadderLogic.Datum

namespace LadderLogic.Toml

/-- How a table came about. -/
inductive Origin where
  /-- It has a header. -/
  | header
  /-- Its name stands in front of another one in a header. -/
  | implied
  /-- Its name stands in front of another one in a dotted key, perhaps besides. -/
  | dotted
deriving DecidableEq

/-- What stands under a key. -/
inductive Item where
  /-- A value, which is complete. -/
  | value (datum : Datum)
  /-- A table that may be continued. -/
  | table (origin : Origin) (entries : List (String × Item))
  /-- A list of tables, of which the last one may be continued. -/
  | tables (earlier : List (List (String × Item))) (last : List (String × Item))

/-- The keys of a table, in order. -/
abbrev Entries := List (String × Item)

/-! ## Data -/

mutual

/-- The data under a key. -/
def Item.toDatum : Item → Datum
  | .value datum => datum
  | .table _ entries => .table (entriesData entries)
  | .tables earlier last => .list (tablesData earlier ++ [.table (entriesData last)])

/-- The data of a table. -/
def entriesData : List (String × Item) → List (String × Datum)
  | [] => []
  | (key, item) :: rest => (key, item.toDatum) :: entriesData rest

/-- The data of several tables. -/
def tablesData : List (List (String × Item)) → List Datum
  | [] => []
  | entries :: rest => .table (entriesData entries) :: tablesData rest

end

namespace Entries

/-! ## Changes -/

/-- Puts another item under a key. -/
def replace (entries : Entries) (key : String) (item : Item) : Entries :=
  entries.map fun entry => if entry.1 == key then (key, item) else entry

/-- Adds a key, which has to be new. -/
def add? (entries : Entries) (key : String) (item : Item) : Option Entries :=
  if (entries.lookup key).isNone then some (entries ++ [(key, item)]) else none

/-- What leads to a table. -/
inductive Way where
  /-- The table is the one that a header has opened. -/
  | opened
  /-- The names stand in a header. -/
  | header
  /-- The names stand in a dotted key. -/
  | dotted

/-- A way may lead through a table. -/
def Way.enters : Way → Origin → Bool
  | .dotted, .header => false
  | _, _ => true

/-- The origin of a table after a way has led through it. -/
def Way.mark : Way → Origin → Origin
  | .dotted, .implied => .dotted
  | _, origin => origin

/-- A way may lead through an item of a list of tables, or end there. -/
def Way.entersItem (way : Way) (isEnd : Bool) : Bool :=
  match way with
  | .dotted => !isEnd
  | _ => true

/-- The origin of a table that a way leads through for the first time. -/
def Way.origin : Way → Origin
  | .dotted => .dotted
  | _ => .implied

/-- Changes the table that a path leads to. -/
def change? (way : Way) (change : Entries → Option Entries) :
    List String → Entries → Option Entries
  | [], entries => change entries
  | key :: path, entries =>
    match entries.lookup key with
    | none => do
      let inner ← change? way change path []
      some (entries ++ [(key, .table way.origin inner)])
    | some (.value _) => none
    | some (.table origin inner) =>
      if way.enters origin then do
        let inner ← change? way change path inner
        some (entries.replace key (.table (way.mark origin) inner))
      else none
    | some (.tables earlier last) =>
      if way.entersItem path.isEmpty then do
        let last ← change? way change path last
        some (entries.replace key (.tables earlier last))
      else none

/-- Adds a value under a dotted key. -/
def insert? (path : List String) (key : String) (datum : Datum) (entries : Entries) :
    Option Entries :=
  entries.change? .dotted (fun inner => inner.add? key (.value datum)) path

/-- The header of a table: its name is new, or was implied. -/
def defineTable? (path : List String) (key : String) (entries : Entries) : Option Entries :=
  entries.change? .header (fun inner =>
    match inner.lookup key with
    | none => some (inner ++ [(key, .table .header [])])
    | some (.table .implied found) => some (inner.replace key (.table .header found))
    | some _ => none) path

/-- The header of an item of a list of tables. -/
def extendTables? (path : List String) (key : String) (entries : Entries) : Option Entries :=
  entries.change? .header (fun inner =>
    match inner.lookup key with
    | none => some (inner ++ [(key, .tables [] [])])
    | some (.tables earlier last) =>
      some (inner.replace key (.tables (earlier ++ [last]) []))
    | some _ => none) path

end Entries

end LadderLogic.Toml
