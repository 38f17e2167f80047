import HarvestPlan.Storage.Backend
import HarvestPlan.Path.Absolute

/-!
A local filesystem as a list of nodes with absolute paths. Links are followed when a path is looked
up, and shown as they are when a directory is listed.
-/
namespace HarvestPlan

open Json (Value)

inductive NodeFault where
  | system (number : Value) (reason : String)
  | fatal (reason : String)
  | interrupt
deriving Repr, DecidableEq

def NodeFault.failure (path : String) : NodeFault → Failure
  | system number reason => .system (.numbered number reason path)
  | fatal reason => .lost ⟨reason, none, none⟩
  | interrupt => .interrupted

/-- The three faults are met when the node itself is asked for, when it is met in the listing of its
    parent, and when it is listed. -/
structure Node where
  path : String
  mode : Value
  size : Value
  modified : Binary64
  uid : Value
  target : Option String
  statFault : Option NodeFault
  lstatFault : Option NodeFault
  listFault : Option NodeFault
deriving Repr

namespace Node

def modeLimit : Nat := twoTo 32

def bits (node : Node) : Except Failure Nat :=
  match node.mode.quantity?.bind Quantity.toInt? with
  | some (.ofNat bits) => if bits < modeLimit then .ok bits else .error .beyondRange
  | some (.negSucc _) => .error .beyondRange
  | none => .error .wrongKind

def typeBits (mode : Nat) : Nat := mode / 0o10000 % 0o20

def isDirectory (node : Node) : Except Failure Bool := (typeBits · == 0o4) <$> node.bits

def permission (mode : Nat) : Nat := mode % 0o10000

end Node

/-- Paths that do not start with a separator are taken from `directory`. -/
structure Filesystem where
  nodes : List Node
  directory : String
  users : List (String × Value)
  hasOwners : Bool
deriving Repr

namespace Filesystem

inductive LookupFault where
  | system (number : Int) (reason : String)
  | badMode (failure : Failure)
deriving Repr, DecidableEq

namespace LookupFault

def noSuchFile : LookupFault := system 2 "No such file or directory"
def notADirectory : LookupFault := system 20 "Not a directory"
def tooManyLinks : LookupFault := system 40 "Too many levels of symbolic links"

def failure (path : String) : LookupFault → Failure
  | system number reason => .system (.numbered (.int number) reason path)
  | badMode failure => failure

end LookupFault

def find? (fs : Filesystem) (path : String) : Option Node :=
  fs.nodes.find? fun node => node.path == path

def childPath (parent name : String) : String :=
  if Path.endsInSeparator parent then parent ++ name else parent ++ "/" ++ name

def parts (fs : Filesystem) (path : String) : List String :=
  ((Text.cut '/' (Path.fromDirectory fs.directory.toList path.toList)).filter (· ≠ [])).map
    String.ofList

def enter (fs : Filesystem) (follow : String → Except LookupFault Node) (node : Node)
    (name : String) : Except LookupFault Node := do
  if !(← node.isDirectory.mapError .badMode) then throw .notADirectory
  match fs.find? (childPath node.path name) with
  | none => throw .noSuchFile
  | some child => match child.target with
    | none => pure child
    | some target => follow target

def walkParts (fs : Filesystem) (follow : String → Except LookupFault Node) (path : String) :
    Except LookupFault Node :=
  match fs.find? "/" with
  | none => .error .noSuchFile
  | some root => (fs.parts path).foldlM (fs.enter follow) root

/-- The node of a path, with links nested at most `nesting` deep. -/
def lookupWithin (fs : Filesystem) : (nesting : Nat) → String → Except LookupFault Node
  | 0, path => fs.walkParts (fun _ => .error .tooManyLinks) path
  | nesting + 1, path => fs.walkParts (fs.lookupWithin nesting) path

def deepestLinks : Nat := 8

def lookup (fs : Filesystem) (path : String) : Except Failure Node :=
  (fs.lookupWithin deepestLinks path).mapError (LookupFault.failure path)

def isDirectory (fs : Filesystem) (path : String) : Except Failure Bool :=
  match fs.lookup path with
  | .ok node => node.isDirectory
  | .error (.system _) => .ok false
  | .error failure => .error failure

def parent? (path : String) : Option String :=
  match Text.cutLast? '/' path.toList with
  | some (_, []) | none => none
  | some ([], _) => some "/"
  | some (parent, _) => some (String.ofList parent)

def childrenOf (fs : Filesystem) (node : Node) : List Node :=
  fs.nodes.filter fun child => parent? child.path == some node.path

def owner (fs : Filesystem) (uid : Value) : Value :=
  if !fs.hasOwners then .str ""
  else (fs.users.lookup uid.text).getD (.str uid.text)

/-- The status that a node has under a path. A directory has no size. -/
def statusOf (fs : Filesystem) (path : String) (node : Node) : Except Failure Status := do
  let bits ← node.bits
  let isDirectory ← node.isDirectory
  let modified ← wholeMilliseconds node.modified
  pure
    { path := path
      name := .str (Path.name path)
      size := if isDirectory then .int 0 else node.size
      modified := modified
      owner := fs.owner node.uid
      isDirectory := isDirectory
      permission := Node.permission bits }

def raise (fault : Option NodeFault) (path : String) : Except Failure Unit :=
  match fault with
  | none => .ok ()
  | some fault => .error (fault.failure path)

def stat (fs : Filesystem) (path : String) : Except Failure Status := do
  let node ← fs.lookup path
  raise node.statFault path
  fs.statusOf path node

/-- Looks at the children one after another. One that cannot be looked at is noted; a fault that is
    none of the system's ends the listing. -/
def listChildren (fs : Filesystem) (path : String) : List Node → Listing
  | [] => ⟨[], .ok []⟩
  | child :: rest =>
    let shown := childPath path (Path.name child.path)
    let looked := do
      raise child.lstatFault shown
      fs.statusOf shown child
    match looked with
    | .ok status =>
      let listing := fs.listChildren path rest
      ⟨listing.failed, (status :: ·) <$> listing.children⟩
    | .error (.system error) =>
      let listing := fs.listChildren path rest
      ⟨(shown, error.message) :: listing.failed, listing.children⟩
    | .error failure => ⟨[], .error failure⟩

def openDirectory (fs : Filesystem) (path : String) : Except Failure Node := do
  let node ← fs.lookup path
  raise node.listFault path
  if ← node.isDirectory then pure node
  else throw (LookupFault.notADirectory.failure path)

def list (fs : Filesystem) (path : String) : Listing :=
  match fs.openDirectory path with
  | .error failure => ⟨[], .error failure⟩
  | .ok node =>
    let listing := fs.listChildren path (fs.childrenOf node)
    ⟨listing.failed, byName <$> listing.children⟩

/-- An absolute root that ends in a separator if the root was written with one. -/
def normalizeRoot (fs : Filesystem) (root : String) : String :=
  let absolute := Path.absolute fs.directory root
  if Path.endsInSeparator root && !Path.endsInSeparator absolute then absolute ++ "/" else absolute

def backend (fs : Filesystem) : Backend where
  tag := some "local"
  hasClient := false
  refuse _ := .wrongKind
  normalizeRoot root := .ok (fs.normalizeRoot root)
  stat path := fs.stat (Path.absolute fs.directory path)
  list path := fs.list (Path.absolute fs.directory path)

def walkLimit (fs : Filesystem) : Nat := twoTo (fs.nodes.length + 64)

end Filesystem
end HarvestPlan
