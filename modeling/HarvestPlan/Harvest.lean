import HarvestPlan.BasePath
import HarvestPlan.Entry.Record
import HarvestPlan.Storage.Opened

/-!
Harvesting: a walk over the source roots that notes one entry for each node it meets. The roots are
walked one after another and each depth first, a directory before what lies below it.
-/
namespace HarvestPlan

open Json (Value)

inductive WarningKind where
  | missingRoot
  | readError
deriving Repr, DecidableEq

def WarningKind.name : WarningKind → String
  | missingRoot => "missing_root"
  | readError => "read_error"

structure Warning where
  kind : WarningKind
  path : String
  text : String
deriving Repr, DecidableEq

def Warning.shownAs (kind path : Value) : String :=
  "HarvestWarning(" ++ kind.shown ++ ", " ++ path.shown ++ ")"

def Warning.shown (warning : Warning) : String :=
  shownAs (.str warning.kind.name) (.str warning.path)

/-- Whether a harvest is to be given up, by how many times that has been asked before. -/
structure Cancel where
  isSet : Nat → Bool

def Cancel.never : Cancel := ⟨fun _ => false⟩

def Cancel.after (n : Nat) : Cancel := ⟨fun asked => n ≤ asked⟩

namespace Harvest

structure Progress where
  entries : Array Entry
  warnings : Array Warning
  asked : Nat
deriving Repr

structure Stopped where
  cause : Failure
  progress : Progress

namespace Progress

def start : Progress := ⟨#[], #[], 0⟩

def note (progress : Progress) (entry : Entry) : Progress :=
  { progress with entries := progress.entries.push entry }

def warn (progress : Progress) (kind : WarningKind) (path text : String) : Progress :=
  { progress with warnings := progress.warnings.push ⟨kind, path, text⟩ }

def warnAll (progress : Progress) (failed : List (String × String)) : Progress :=
  failed.foldl (fun progress (path, text) => progress.warn .readError path text) progress

def ask (cancel : Cancel) (progress : Progress) : Except Stopped Progress :=
  let asked := { progress with asked := progress.asked + 1 }
  if cancel.isSet progress.asked then .error ⟨.cancelled, asked⟩ else .ok asked

end Progress

/-- What stays the same during a walk; no root may have more than `limit` entries. -/
structure Setting where
  backend : Backend
  credentials : Credentials
  recursive : Bool
  cancel : Cancel
  limit : Nat

def knownOwner (owner : Value) : Value := if owner.isEmpty then .str "" else owner

def entryOf (root : String) (credentials : Credentials) (status : Status) :
    Except Failure Entry := do
  let basePath ← BasePath.compute status.path root status.name
  (Entry.ofDraft
    { fileName := status.name
      fullPath := .str status.path
      size := status.size
      timestamp := .int status.modified
      owner := knownOwner status.owner
      isFolder := .bool status.isDirectory
      basePath := basePath
      permission := .int status.permission
      credentials := credentials }).mapError .entry

def stopAt {α : Type} (progress : Progress) (result : Except Failure α) : Except Stopped α :=
  result.mapError fun cause => ⟨cause, progress⟩

/-- A directory is listed if it is the root itself, or if the harvest goes below the children. -/
def isListed (setting : Setting) (status : Status) (depth : Nat) : Bool :=
  status.isDirectory && (depth == 0 || setting.recursive)

/-- The children of a directory at the next depth. One that cannot be listed has none, and a
    warning instead; a lost storage ends the walk. -/
def expand (setting : Setting) (status : Status) (depth : Nat) (progress : Progress) :
    Except Stopped (List (Status × Nat) × Progress) :=
  if !isListed setting status depth then .ok ([], progress)
  else
    let listing := setting.backend.list status.path
    let progress := progress.warnAll listing.failed
    match listing.children with
    | .ok children => .ok (children.map (·, depth + 1), progress)
    | .error (.system error) => .ok ([], progress.warn .readError status.path error.message)
    | .error cause => .error ⟨cause, progress⟩

/-- Takes the pending nodes from the front; the children of a node come before the others. -/
def walk (setting : Setting) (root : String) :
    (limit : Nat) → List (Status × Nat) → Progress → Except Stopped Progress
  | _, [], progress => .ok progress
  | 0, _ :: _, progress => .error ⟨.unfinished, progress⟩
  | limit + 1, (status, depth) :: pending, progress => do
    let progress ← progress.ask setting.cancel
    let entry ← stopAt progress (entryOf root setting.credentials status)
    let (children, progress) ← expand setting status depth (progress.note entry)
    walk setting root limit (children ++ pending) progress

/-- The root that base paths are relative to: a root that is no directory counts as none, so that
    its entry keeps its name alone. -/
def treeRoot (normalized : String) (status : Status) : String :=
  if status.isDirectory then normalized else ""

def visitRoot (setting : Setting) (root : String) (progress : Progress) :
    Except Stopped Progress := do
  let normalized ← stopAt progress (setting.backend.normalizeRoot root)
  match setting.backend.stat normalized with
  | .ok status =>
    walk setting (treeRoot normalized status) setting.limit [(status, 0)] progress
  | .error (.system error) =>
    let kind := if error.isMissing then .missingRoot else .readError
    .ok (progress.warn kind root error.message)
  | .error cause => .error ⟨cause, progress⟩

/-- A storage that is lost names the root that was being walked. -/
def locate (root tag : String) (stopped : Stopped) : Stopped :=
  match stopped.cause with
  | .lost context => { stopped with cause := .lost (context.located root tag) }
  | _ => stopped

def askAndVisit (setting : Setting) (tag : String) (progress : Progress) (root : String) :
    Except Stopped Progress := do
  let progress ← progress.ask setting.cancel
  (visitRoot setting root progress).mapError (locate root tag)

def visitRoots (setting : Setting) (tag : String) (roots : List String) :
    Except Stopped Progress :=
  roots.foldlM (askAndVisit setting tag) .start

def leadingTexts : List Value → List String × Option Value
  | [] => ([], none)
  | .str root :: rest =>
    let (roots, other) := leadingTexts rest
    (root :: roots, other)
  | other :: _ => ([], some other)

def visitValues (setting : Setting) (tag : String) (roots : List Value) :
    Except Stopped Progress := do
  let (roots, other) := leadingTexts roots
  let progress ← visitRoots setting tag roots
  match other with
  | none => pure progress
  | some other => do
    let progress ← progress.ask setting.cancel
    throw ⟨setting.backend.refuse other, progress⟩

end Harvest

open Harvest

structure HarvestResult where
  entries : List Entry
  warnings : List Warning
deriving Repr

namespace HarvestResult

def ofProgress (progress : Progress) : HarvestResult :=
  ⟨progress.entries.toList, progress.warnings.toList⟩

def warningsOf (result : HarvestResult) (kind : WarningKind) : List Warning :=
  result.warnings.filter (·.kind = kind)

def totalBytes (result : HarvestResult) : Except Failure Quantity :=
  match result.entries.foldlM (fun total entry => total.add? entry.size) (Quantity.int 0) with
  | some total => .ok total
  | none => .error .beyondRange

end HarvestResult

structure HarvestOutcome where
  handles : List Handle
  result : Except Stopped HarvestResult

namespace Harvest

/-- Entries carry the credentials given, which must be of the kind of storage that is harvested, or
    else those of the connection. -/
def chooseCredentials (connection : Connection) (given : Option Credentials) :
    Except Failure Credentials := do
  let credentials := given.getD connection.credentials
  let tag := connection.backendType.tag
  match credentials.tag? with
  | none => throw .lacksOperation
  | some actual =>
    if actual.sameKey (.str tag) then pure credentials
    else throw (.refused (.foreignCredentials actual tag))

/-- Opens the storage, lets it be walked and closes it again whatever happens. -/
def runWith (surroundings : Surroundings) (connection : Connection) (given : Option Credentials)
    (recursive : Bool) (cancel : Cancel) (walkOver : Setting → Except Stopped Progress) :
    HarvestOutcome :=
  let opened := do
    let credentials ← chooseCredentials connection given
    let backend ← connection.openIn surroundings
    pure (credentials, backend)
  match opened with
  | .error cause => ⟨[], .error ⟨cause, .start⟩⟩
  | .ok (credentials, backend) =>
    let setting : Setting :=
      ⟨backend, credentials, recursive, cancel, connection.walkLimit surroundings⟩
    ⟨[(Handle.ofBackend backend).close], .ofProgress <$> walkOver setting⟩

def run (surroundings : Surroundings) (connection : Connection) (given : Option Credentials)
    (roots : List String) (recursive : Bool) (cancel : Cancel) : HarvestOutcome :=
  runWith surroundings connection given recursive cancel fun setting =>
    visitRoots setting connection.backendType.tag roots

def runValue (surroundings : Surroundings) (connection : Connection) (given : Option Credentials)
    (roots : Value) (recursive : Bool) (cancel : Cancel) : HarvestOutcome :=
  match roots.items? with
  | none => ⟨[], .error ⟨.wrongKind, .start⟩⟩
  | some roots => runWith surroundings connection given recursive cancel fun setting =>
    visitValues setting connection.backendType.tag roots

end Harvest
end HarvestPlan
