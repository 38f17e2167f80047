import HarvestPlan.Failure

/-!
Backends: what a harvest can ask of a storage. A status tells what the storage knows about one path;
a listing gives the statuses of the direct children of a directory, sorted by name.
-/
namespace HarvestPlan

open Json (Value)

/-- Name, size and owner are whatever the storage gives for them. -/
structure Status where
  path : String
  name : Value
  size : Value
  modified : Int
  owner : Value
  isDirectory : Bool
  permission : Int
deriving Repr, DecidableEq

/-- The children that could not be looked at, each with the reason, and the others. The listing of
    a directory may fail after some of its children have. -/
structure Listing where
  failed : List (String × String)
  children : Except Failure (List Status)

structure Backend where
  tag : Option String
  hasClient : Bool
  /-- What comes of a path that is no text. -/
  refuse : Value → Failure
  normalizeRoot : String → Except Failure String
  stat : String → Except Failure Status
  list : String → Listing

namespace Backend

def bare : Backend where
  tag := none
  hasClient := false
  refuse _ := .notProvided
  normalizeRoot _ := .error .notProvided
  stat _ := .error .notProvided
  list _ := ⟨[], .error .notProvided⟩

end Backend

def byName (statuses : List Status) : List Status :=
  statuses.mergeSort fun a b => decide (a.name.text ≤ b.name.text)

def hasOrder : Value → Bool
  | .null | .obj _ => false
  | _ => true

/-- Texts are sorted. Names of other kinds can only stand side by side if they are all the same. -/
def sortByName (statuses : List Status) : Except Failure (List Status) :=
  if statuses.all (·.name.text?.isSome) then .ok (byName statuses)
  else match statuses with
    | first :: _ :: _ =>
      if hasOrder first.name && statuses.all (·.name = first.name) then .ok statuses
      else .error .wrongKind
    | _ => .ok statuses

def wholeMilliseconds (seconds : Binary64) : Except Failure Int :=
  match seconds.scaleBy 1000 1 with
  | .nan => .error (.refused .notANumber)
  | .infinite _ => .error .beyondRange
  | milliseconds => .ok (milliseconds.truncate?.getD 0)

/-- An open backend. Its client is told to close once. -/
structure Handle where
  backend : Backend
  closed : Bool
  closings : Nat

namespace Handle

def ofBackend (backend : Backend) : Handle := ⟨backend, false, 0⟩

def checkOpen (handle : Handle) : Except Failure Unit :=
  match handle.closed, handle.backend.tag with
  | true, some tag => .error (.lost ⟨"Backend handle is closed", none, some tag⟩)
  | _, _ => .ok ()

def stat (handle : Handle) (path : String) : Except Failure Status := do
  handle.checkOpen
  handle.backend.stat path

def list (handle : Handle) (path : String) : Listing :=
  match handle.checkOpen with
  | .ok () => handle.backend.list path
  | .error failure => ⟨[], .error failure⟩

def normalizeValue (handle : Handle) : Value → Except Failure String
  | .str path => handle.backend.normalizeRoot path
  | path => .error (handle.backend.refuse path)

def statValue (handle : Handle) : Value → Except Failure Status
  | .str path => handle.stat path
  | path => do
    handle.checkOpen
    throw (handle.backend.refuse path)

def listValue (handle : Handle) : Value → Listing
  | .str path => handle.list path
  | path => match handle.checkOpen with
    | .ok () => ⟨[], .error (handle.backend.refuse path)⟩
    | .error failure => ⟨[], .error failure⟩

def close (handle : Handle) : Handle where
  backend := handle.backend
  closed := true
  closings :=
    if handle.backend.hasClient && !handle.closed then handle.closings + 1 else handle.closings

end Handle
end HarvestPlan
