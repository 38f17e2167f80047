import HarvestPlan.Store.Basic
import HarvestPlan.Store.Folder

/-!
Opening a store on a file. Beside a file there may be a journal of a change that has not ended, a
log of changes that are not in it yet, an index of that log, and a mark that it is in use. A file
comes into being when a store is to be made on it, and blank it stays if that fails.
-/
namespace HarvestPlan

structure Backing where
  file : Octets
  journaled : Bool
deriving Repr, DecidableEq

structure Opened where
  backing : Option Backing
  store : Store
deriving Repr

namespace Folder

def journalOf (file : Octets) : Octets := file ++ Octets.ofText "-journal"

def logOf (file : Octets) : Octets := file ++ Octets.ofText "-wal"

def indexOf (file : Octets) : Octets := file ++ Octets.ofText "-shm"

def markOf (file : Octets) : Octets := file ++ Octets.ofText ".lock"

def hasRoom (file : Octets) : Bool :=
  ((Text.cut separator (journalOf file)).getLast?.getD []).length ≤ longestComponent

/-- A store keeps a log only under locks of its own. -/
def logs (opening : Opening) : Bool :=
  !opening.unlocked && (opening.locking == .shared || opening.locking == .exclusive)

def isHeld (folder : Folder) (file : Octets) (opening : Opening) : Bool :=
  opening.locking == .lockFile && !opening.unlocked && folder.isFile (markOf file)

/-- A journal that is not blank is taken back, unless the file is marked, be it by the store that
    is being opened. -/
def hasJournal (folder : Folder) (file : Octets) (opening : Opening) : Bool :=
  folder.hasData (journalOf file) &&
    !(opening.locking == .lockFile && (!opening.unlocked || folder.isFile (markOf file)))

def withoutLog (folder : Folder) (file : Octets) (opening : Opening) : Folder :=
  let folder := folder.remove (logOf file)
  if opening.locking = .shared then folder.remove (indexOf file) else folder

/-- A reader leaves the log that it found, or a blank one, and an index. -/
def withIndex (folder : Folder) (file : Octets) : Folder :=
  let folder :=
    if folder.isFile (logOf file) then folder else folder.put (logOf file) .blank
  folder.put (indexOf file) .foreign

def recovered? (folder : Folder) (file : Octets) (opening : Opening) : Option Folder :=
  if !folder.hasJournal file opening then some folder
  else if opening.access = .readOnly then none
  else some (folder.remove (journalOf file))

def refused (folder : Folder) (failure : Failure) : Folder × Except Failure Opened :=
  (folder, .error failure)

def opened (folder : Folder) (file : Octets) (opening : Opening) (tables : Tables) :
    Folder × Except Failure Opened :=
  let store : Store :=
    if opening.access = .readOnly then .onlyRead tables else .ofTables tables
  (folder, .ok ⟨some ⟨file, !logs opening⟩, store⟩)

def openFrozen (file : Octets) : Content → Except Failure Opened
  | .blank => .error .storeUnavailable
  | .foreign => .error .notAStore
  | .database tables _ => .ok ⟨some ⟨file, false⟩, .onlyRead tables⟩

/-- A blank file becomes one of empty tables. What lies beside it is of no use. -/
def openBlank (folder : Folder) (file : Octets) (opening : Opening) :
    Folder × Except Failure Opened :=
  let cleared :=
    if folder.hasData (logOf file) then folder.remove (logOf file) else folder
  if opening.access = .readOnly then
    let stale := !logs opening && folder.hasJournal file opening
    refused (if stale then cleared.remove (journalOf file) else cleared) .storeUnavailable
  else
    let cleared := cleared.remove (journalOf file)
    if !hasRoom file then refused cleared .storeUnavailable
    else
      let cleared := if logs opening then cleared.withoutLog file opening else cleared
      let made := cleared.put file (.database .empty (logs opening))
      opened made file opening .empty

/-- A file that is no store is not opened, which only shows once its log has been looked at. -/
def openForeign (folder : Folder) (file : Octets) (opening : Opening) :
    Folder × Except Failure Opened :=
  match folder.recovered? file opening with
  | none => refused folder .storeUnavailable
  | some folder =>
    if !folder.hasData (logOf file) then refused folder .notAStore
    else if !logs opening then refused folder .storeUnavailable
    else if opening.access = .readOnly then refused (folder.withIndex file) .notAStore
    else refused (folder.withoutLog file opening) .notAStore

/-- A store with a log is only opened by one that logs, and one that logs makes its file keep one
    unless a log lies there already. -/
def openDatabase (folder : Folder) (file : Octets) (opening : Opening) (tables : Tables)
    (logged : Bool) : Folder × Except Failure Opened :=
  match folder.recovered? file opening with
  | none => refused folder .storeUnavailable
  | some folder =>
    if logged || folder.hasData (logOf file) then
      if !logs opening then refused folder .storeUnavailable
      else if opening.access = .readOnly then
        opened (folder.withIndex file) file opening tables
      else opened (folder.withoutLog file opening) file opening tables
    else if !logs opening then opened folder file opening tables
    else if opening.access = .readOnly then refused folder .storeUnavailable
    else
      let folder := (folder.remove (journalOf file)).withoutLog file opening
      opened (folder.put file (.database tables true)) file opening tables

def openContent (folder : Folder) (file : Octets) (opening : Opening) (content : Content) :
    Folder × Except Failure Opened :=
  if opening.frozen then (folder, openFrozen file content)
  else if folder.isHeld file opening then refused folder .storeUnavailable
  else match content with
    | .blank => folder.openBlank file opening
    | .foreign => folder.openForeign file opening
    | .database tables logged => folder.openDatabase file opening tables logged

def openFile (folder : Folder) (file : Octets) (opening : Opening) :
    Folder × Except Failure Opened :=
  match folder.content? file with
  | some content => folder.openContent file opening content
  | none =>
    if opening.access = .creating then
      (folder.put file .blank).openContent file opening .blank
    else refused folder .storeUnavailable

/-- The model of an opening must be there before anything is done. -/
def openAt (folder : Folder) (opening : Opening) : Folder × Except Failure Opened :=
  if !opening.model.all folder.isThere then refused folder .storeUnavailable
  else match folder.fileAt? opening.path with
    | some file => folder.openFile file opening
    | none => refused folder .storeUnavailable

def openStore (folder : Folder) (name : String) : Folder × Except Failure Opened :=
  match Location.ofName name with
  | .error failure => refused folder failure
  | .ok .memory => (folder, .ok ⟨none, .ofTables .empty⟩)
  | .ok (.file opening) => folder.openAt opening

/-- What an open store holds is in its file. A change that goes through a journal removes it at its
    end. -/
def keep (folder : Folder) (backing : Option Backing) (store : Store) : Folder :=
  match backing with
  | none => folder
  | some ⟨file, journaled⟩ => match folder.content? file with
    | some (.database tables logged) =>
      if tables = store.tables then folder
      else
        let changed := folder.put file (.database store.tables logged)
        if journaled then changed.remove (journalOf file) else changed
    | _ => folder

end Folder

end HarvestPlan
