import HarvestPlan.Store.Tables

namespace HarvestPlan

structure Database where
  tables : Tables
  before : Option Tables
  writable : Bool
deriving Repr, DecidableEq

namespace Database

def ofTables (tables : Tables) : Database := ⟨tables, none, true⟩

def empty : Database := ofTables .empty

end Database

/-- A change may fail halfway; what it has done by then stays. -/
abbrev Change := Database → Database × Except Failure Unit

namespace Change

def done : Change := fun database => (database, .ok ())

def fail (failure : Failure) : Change := fun database => (database, .error failure)

/-- A database that can only be read takes no change, not even one that would fail. -/
def write (f : Tables → Except Failure Tables) : Change := fun database =>
  if !database.writable then (database, .error .storeReadOnly)
  else match f database.tables with
    | .ok tables => ({ database with tables := tables }, .ok ())
    | .error failure => (database, .error failure)

def update (f : Tables → Tables) : Change := write fun tables => .ok (f tables)

def andThen (first second : Change) : Change := fun database =>
  match first database with
  | (changed, .ok ()) => second changed
  | (changed, .error failure) => (changed, .error failure)

def require {α : Type} (value : Except Failure α) (next : α → Change) : Change :=
  match value with
  | .ok value => next value
  | .error failure => fail failure

def each {α : Type} (change : α → Change) : List α → Change
  | [] => done
  | item :: rest => (change item).andThen (each change rest)

def start : Change := fun database =>
  match database.before with
  | some _ => (database, .error .storeUnavailable)
  | none => ({ database with before := some database.tables }, .ok ())

def commit (database : Database) : Database := { database with before := none }

def rollback (database : Database) : Database where
  tables := database.before.getD database.tables
  before := none
  writable := database.writable

/-- All of the body, or nothing of it. -/
def transaction (body : Change) : Change := start.andThen fun database =>
  match body database with
  | (changed, .ok ()) => (commit changed, .ok ())
  | (changed, .error failure) => (rollback changed, .error failure)

end Change
end HarvestPlan
