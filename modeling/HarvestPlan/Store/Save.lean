import HarvestPlan.Store.Basic
import HarvestPlan.Json.Writer
import HarvestPlan.Split.Fingerprint

namespace HarvestPlan

open Json (Value)

namespace Member

def recordText : Member → Except Failure String
  | entry e => match e.toRecord with
    | .ok record =>
      if Json.isWritable (.obj record) then .ok (Json.write (.obj record))
      else .error (.refused .unwritableInteger)
    | .error fault => .error (.entry fault)
  | unreadable .. | foreign _ => .error .lacksOperation

end Member

namespace Store

def splitRow (index : Nat) (split : Split) : Except Failure SplitRow := do
  let fingerprint ← split.fingerprint
  let index ← Column.integer index
  let load ← Column.bound split.load
  let total ← Column.bound (.ofQuantity split.totalBytes)
  let load ← Column.present (Column.numeric load)
  let total ← Column.present (Column.numeric total)
  pure ⟨index, load, total, fingerprint⟩

def entryRow (index : Nat) (member : Member × Nat) : Except Failure EntryRow := do
  let text ← member.1.recordText
  let index ← Column.integer index
  let position ← Column.integer member.2
  pure ⟨.ofInt index, .ofInt position, text⟩

def insertMember (index : Nat) (member : Member × Nat) : Change :=
  Change.require (entryRow index member) fun row => Change.update (·.pushEntry row)

def insertWhole (split : Split × Nat) : Change :=
  Change.require (splitRow split.2 split.1) fun row =>
    (Change.update (·.pushSplit row)).andThen
      (Change.each (insertMember split.2) split.1.members.toList.zipIdx)

def capText (cap : Value) : Except Failure String :=
  if Json.isWritable cap then .ok cap.text else .error (.refused .unwritableInteger)

def markSaved (cap : String) (tables : Tables) : Tables :=
  (tables.setMetadata capKey (some cap)).setMetadata savedKey (some savedMark)

def replacePlan (splits : List Split) (cap : Value) : Change :=
  (Change.update (·.withoutPlan)).andThen
    ((Change.each insertWhole splits.zipIdx).andThen
      (Change.require (capText cap) fun cap => Change.update (markSaved cap)))

def save (store : Store) (splits : List Split) (cap : Value) : Store × Except Failure Unit :=
  store.run (Change.transaction (replacePlan splits cap))

end Store
end HarvestPlan
