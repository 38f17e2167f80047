import HarvestPlan.Store.Location
import HarvestPlan.Store.Tables

namespace HarvestPlan

open Json (Value)

/-- What a file holds: nothing yet, the tables of a store, or what is no store. A store may keep a
    log of its changes. -/
inductive Content where
  | blank
  | database (tables : Tables) (logged : Bool)
  | foreign
deriving Repr, DecidableEq

abbrev Folder := List (Octets × Content)

namespace Folder

def content? (folder : Folder) (name : Octets) : Option Content := folder.lookup name

def remove (folder : Folder) (name : Octets) : Folder := folder.filter fun file => file.1 ≠ name

def put (folder : Folder) (name : Octets) (content : Content) : Folder :=
  (name, content) :: folder.remove name

def isFile (folder : Folder) (name : Octets) : Bool := (folder.content? name).isSome

def hasData (folder : Folder) (name : Octets) : Bool :=
  match folder.content? name with
  | none | some .blank => false
  | some _ => true

def separator : UInt8 := '/'.toUInt8

def here : Octets := Octets.ofText "."

def upward : Octets := Octets.ofText ".."

def longestComponent : Nat := 255

/-- How long the names of the folder and of those above it are. -/
def folderLengths : List Nat := [11, 3]

def higher (above : Nat) : Nat := min (above + 1) folderLengths.length

structure Place where
  above : Nat
  names : List Octets
deriving Repr, DecidableEq

namespace Place

def start : Place := ⟨0, []⟩

def root : Place := ⟨folderLengths.length, []⟩

def ofPath (path : Octets) : Place := if path.head? = some separator then root else start

def fileIn : (above : Nat) → Octets → Octets
  | 0, name => name
  | above + 1, name => upward ++ separator :: fileIn above name

def file? (place : Place) : Option Octets :=
  match place.names with
  | [name] => some (fileIn place.above name)
  | _ => none

def up (place : Place) : Place :=
  match place.names with
  | [] => { place with above := higher place.above }
  | _ :: names => { place with names := names }

def length (place : Place) : Nat :=
  (folderLengths.drop place.above).foldl (· + · + 1) 0 +
    place.names.foldl (fun n name => n + name.length + 1) 0

end Place

def pathLimit : Nat := 511

/-- One more component. A `..` takes back one whether or not it is there; nothing lies below a
    file. -/
def descend? (folder : Folder) (place : Place) (component : Octets) : Option Place :=
  if component = [] ∨ component = here then some place
  else if component = upward then some place.up
  else if longestComponent < component.length ∨
      pathLimit ≤ place.length + component.length ∨ place.file?.any folder.isFile then none
  else some { place with names := component :: place.names }

def fileAt? (folder : Folder) (path : Octets) : Option Octets := do
  let place ← (Text.cut separator path).foldlM folder.descend? (.ofPath path)
  place.file?

inductive Found where
  | folder (above : Nat)
  | file (name : Octets)
  | nothing
deriving Repr, DecidableEq

def enter? (folder : Folder) (found : Found) (component : Octets) : Option Found :=
  match found with
  | .nothing | .file _ => some .nothing
  | .folder above =>
    if component = [] ∨ component = here then some found
    else if component = upward then some (.folder (higher above))
    else if longestComponent < component.length then none
    else
      let name := Place.fileIn above component
      some (if folder.isFile name then .file name else .nothing)

def longPath : Nat := 4096

def find? (folder : Folder) (path : Octets) : Option Found :=
  if longPath ≤ path.length then none
  else if path = [] then some .nothing
  else (Text.cut separator path).foldlM folder.enter? (.folder (Place.ofPath path).above)

def isThere (folder : Folder) (path : Octets) : Bool :=
  match folder.find? path with
  | none | some .nothing => false
  | some _ => true

def tooLongNumber : Value := .int 36

def found (folder : Folder) (path : String) : Except Failure Found :=
  match folder.find? (Octets.ofText path) with
  | some found => .ok found
  | none => .error (.system (.numbered tooLongNumber "File name too long" path))

def holds (folder : Folder) (path : String) : Except Failure Bool :=
  (· ≠ .nothing) <$> folder.found path

def removeAt (folder : Folder) (path : String) : Except Failure Folder := do
  match ← folder.found path with
  | .file name => pure (folder.remove name)
  | _ => pure folder

end Folder
end HarvestPlan
