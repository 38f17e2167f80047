import HarvestPlan.Failure
import HarvestPlan.Store.Cell

namespace HarvestPlan

open Json (Value)

structure SplitRow where
  index : Int
  load : Value
  total : Value
  fingerprint : String
deriving Repr, DecidableEq

structure EntryRow where
  split : Cell
  position : Cell
  text : String
deriving Repr, DecidableEq

structure Tables where
  metadata : List (String × Option String)
  splits : List SplitRow
  entries : List EntryRow
deriving Repr, DecidableEq

namespace Tables

def empty : Tables := ⟨[], [], []⟩

def metadata? (tables : Tables) (key : String) : Option (Option String) :=
  tables.metadata.lookup key

def setMetadata (tables : Tables) (key : String) (value : Option String) : Tables :=
  { tables with
    metadata := (key, value) :: tables.metadata.filter fun row => row.1 ≠ key }

def split? (tables : Tables) (index : Int) : Option SplitRow :=
  tables.splits.find? fun row => row.index == index

def pushSplit (tables : Tables) (row : SplitRow) : Tables :=
  { tables with splits := tables.splits ++ [row] }

def insertSplit (tables : Tables) (row : SplitRow) : Except Failure Tables :=
  match tables.split? row.index with
  | some _ => .error .storeConstraint
  | none => .ok (tables.pushSplit row)

def nextIndex (tables : Tables) : Int :=
  match tables.splits with
  | [] => 1
  | row :: rows => rows.foldl (fun greatest row => max greatest row.index) row.index + 1

def removeSplit (tables : Tables) (index : Int) : Tables :=
  { tables with splits := tables.splits.filter fun row => row.index ≠ index }

def setLoad (tables : Tables) (index : Int) (load : Value) : Tables :=
  { tables with
    splits := tables.splits.map fun row =>
      if row.index = index then { row with load := load } else row }

def entriesOf (tables : Tables) (split : Cell) : List EntryRow :=
  (tables.entries.filter fun row => row.split.same split).mergeSort fun a b =>
    a.position.atMost b.position

def pushEntry (tables : Tables) (row : EntryRow) : Tables :=
  { tables with entries := tables.entries ++ [row] }

def removeEntry (tables : Tables) (split position : Cell) : Tables :=
  { tables with
    entries := tables.entries.filter fun row =>
      !(row.split.same split && row.position.same position) }

def putEntry (tables : Tables) (row : EntryRow) : Tables :=
  (tables.removeEntry row.split row.position).pushEntry row

def withoutPlan (tables : Tables) : Tables := ⟨tables.metadata, [], []⟩

end Tables
end HarvestPlan
