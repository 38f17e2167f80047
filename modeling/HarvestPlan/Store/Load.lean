import HarvestPlan.Store.Basic
import HarvestPlan.Entry.Record
import HarvestPlan.Split.Basic

/-!
Loading a split. A record that makes no entry becomes a stand-in and the split is still loaded;
positions with gaps, texts that are no records, and a count other than the stored load are damage
to the whole split.
-/
namespace HarvestPlan

open Json (Value Fields)

/-- Credentials that records of the split had so far, by the values of their fields. -/
abbrev SharedCredentials := List (List Value × Credentials)

namespace SharedCredentials

def sameValues : List Value → List Value → Bool
  | [], [] => true
  | a :: as, b :: bs => a.sameKey b && sameValues as bs
  | _, _ => false

def known? (shared : SharedCredentials) (values : List Value) : Option Credentials :=
  (List.find? (fun known => sameValues known.1 values) shared).map (·.2)

/-- The values of the credential fields that the backend of a record asks for. A field that is
    absent counts as null, and a value with parts cannot be looked up. -/
def valuesOf (record : Fields) : Except EntryFault (List Value) := do
  let schema ← credentialSchema (record.findOrNull backendTypeField)
  let values := schema.map fun field => record.findOrNull field.1
  match values.find? fun value => !value.isKey with
  | some value => throw (.notAKey value.kindName)
  | none => pure values

/-- The credentials of a record: those of an earlier record with the same values, or its own. -/
def ofRecord (shared : SharedCredentials) (record : Fields) :
    Except EntryFault (Credentials × SharedCredentials) := do
  let values ← valuesOf record
  match shared.known? values with
  | some credentials => pure (credentials, shared)
  | none =>
    let credentials ← Credentials.ofFields record
    pure (credentials, shared ++ [(values, credentials)])

end SharedCredentials

namespace Store

def standIn (record : Fields) (fault : EntryFault) : Except Failure Member :=
  if !fault.isCollected then .error (.entry fault)
  else match record.findOrNull "fullPath" with
    | .str path => .ok (.unreadable (.str path) (.str fault.message))
    | _ => .ok (.unreadable (.str "") (.str fault.message))

/-- The member that a record makes; its credentials are known to the records after it even if it
    makes no entry. -/
def rebuild (shared : SharedCredentials) (record : Fields) :
    Except Failure (Member × SharedCredentials) :=
  match shared.ofRecord record with
  | .error fault => (·, shared) <$> standIn record fault
  | .ok (credentials, shared) => match Entry.ofRecord record (some credentials) with
    | .ok entry => .ok (.entry entry, shared)
    | .error fault => (·, shared) <$> standIn record fault

def recordOf (split : Value) (position : Nat) (text : String) : Except Failure Fields :=
  match Json.read text with
  | .ok (.obj record) => .ok record
  | .ok _ => .error (.damaged split (.notARecord position))
  | .error (.longInteger digits) => .error (.refused (.longInteger digits))
  | .error (.tooDeep compound) => .error (.tooDeep compound)
  | .error error => .error (.damaged split (.notJson position error))

/-- Adds the members of the rows to the split, as long as each stands at the next position. -/
def addRows : (position : Nat) → SharedCredentials → Split → List EntryRow → Except Failure Split
  | _, _, split, [] => .ok split
  | position, shared, split, row :: rows => do
    if !row.position.same (.ofInt position) then
      throw (.damaged split.index (.missingPosition position))
    let record ← recordOf split.index position row.text
    let (member, shared) ← rebuild shared record
    let grown ← split.added member
    addRows (position + 1) shared grown rows

/-- The split of the entry rows under a key, which must be as many as `load`; it is known by the
    index that it was asked for by. -/
def assemble (tables : Tables) (index : Value) (key : Int) (load : Value) :
    Except Failure Split := do
  let split ← addRows 0 [] (.empty index) (tables.entriesOf (.ofInt key))
  if split.load ≠ load then
    throw (.damaged index (.wrongCount load split.size))
  pure split.finalize

def split (store : Store) (index : Value) : Except Failure Split := do
  let some number := index.quantity? | throw .wrongKind
  if !(Quantity.int 0).atMost number then throw (.storedIndex index)
  let tables ← store.reach
  if !number.less (.int tables.splits.length) then throw (.storedIndex index)
  let key ← Column.key index
  match key.bind tables.split?, key with
  | some row, some key => assemble tables index key row.load
  | _, _ => throw .wrongKind

end Store
end HarvestPlan
