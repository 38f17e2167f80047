import HarvestPlan.Store.Transaction
import HarvestPlan.Store.Column

namespace HarvestPlan

open Json (Value)

structure Store where
  database : Database
  isOpen : Bool
deriving Repr, DecidableEq

namespace Store

def ofTables (tables : Tables) : Store := ⟨.ofTables tables, true⟩

def onlyRead (tables : Tables) : Store := ⟨⟨tables, none, false⟩, true⟩

def tables (store : Store) : Tables := store.database.tables

def close (store : Store) : Store := { store with isOpen := false }

def reach (store : Store) : Except Failure Tables :=
  if store.isOpen then .ok store.tables else .error .storeRefuses

/-- A change goes through to the database if the store is open, and stays as far as it got. -/
def run (store : Store) (change : Change) : Store × Except Failure Unit :=
  if !store.isOpen then (store, .error .storeRefuses)
  else
    let (database, result) := change store.database
    ({ store with database := database }, result)

def count (store : Store) : Except Failure Nat := do
  let tables ← store.reach
  pure tables.splits.length

def fingerprint? (store : Store) (index : Value) : Except Failure (Option String) := do
  let tables ← store.reach
  let key ← Column.key index
  pure ((key.bind tables.split?).map (·.fingerprint))

def texts (store : Store) (index : Value) : Except Failure (List String) := do
  let tables ← store.reach
  match ← Column.cell index with
  | some split => pure ((tables.entriesOf split).map (·.text))
  | none => pure []

def metadata (store : Store) (key fallback : Value) : Except Failure Value := do
  let tables ← store.reach
  let key ← Column.text key
  match key.bind tables.metadata? with
  | some value => pure (.ofString? value)
  | none => pure fallback

def setMetadata (store : Store) (key value : Value) : Store × Except Failure Unit :=
  let texts := do
    let key ← Column.text key
    let value ← Column.text value
    pure (key, value)
  store.run <| Change.require texts fun (key, value) => match key with
    | some key => Change.update (·.setMetadata key value)
    | none => Change.update id

def capKey : String := "max_per_split"

def savedKey : String := "plan_saved"

def savedMark : String := "true"

def hasPlan (store : Store) : Except Failure Bool := do
  let tables ← store.reach
  pure (tables.metadata? savedKey == some (some savedMark))

def pair (a b : Value) : Except Failure (Value × Value) := do
  let a ← Column.bound a
  let b ← Column.bound b
  pure (a, b)

def putEntry (store : Store) (split position text : Value) : Store × Except Failure Unit :=
  let values := do
    let keys ← pair split position
    let text ← Column.bound text
    pure (keys, text)
  store.run <| Change.require values fun ((split, position), text) =>
    Change.write fun tables => do
      let split ← Column.presentCell split
      let position ← Column.presentCell position
      let some text := Column.textOf text | throw .storeConstraint
      pure (tables.putEntry ⟨split, position, text⟩)

def removeEntry (store : Store) (split position : Value) : Store × Except Failure Unit :=
  store.run <| Change.require (pair split position) fun (split, position) =>
    match Column.cell? split, Column.cell? position with
    | some split, some position => Change.update (·.removeEntry split position)
    | _, _ => Change.update id

/-- A load that is null is only refused if there is a row for it. -/
def setLoad (store : Store) (split load : Value) : Store × Except Failure Unit :=
  store.run <| Change.require (pair split load) fun (split, load) =>
    Change.write fun tables => match Column.key? split with
      | none => .ok tables
      | some index => match tables.split? index with
        | none => .ok tables
        | some _ => (tables.setLoad index ·) <$> Column.present (Column.numeric load)

def removeSplit (store : Store) (index : Value) : Store × Except Failure Unit :=
  store.run <| Change.require (Column.key index) fun
    | some index => Change.update (·.removeSplit index)
    | none => Change.update id

/-- A split row of its own, without entries; null stands for the next free index. -/
def insertSplit (store : Store) (index load : Value) (fingerprint : String) :
    Store × Except Failure Unit :=
  store.run <| Change.require (pair index load) fun (index, load) =>
    Change.write fun tables => do
      let index ← if index = .null then pure tables.nextIndex else Column.presentKey index
      let load ← Column.present (Column.numeric load)
      tables.insertSplit ⟨index, load, .int 0, fingerprint⟩

end Store
end HarvestPlan
