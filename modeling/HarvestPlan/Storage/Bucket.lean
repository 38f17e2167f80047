import HarvestPlan.Storage.Backend
import HarvestPlan.Path.Uri
import HarvestPlan.Text.Trim

/-!
A bucket of objects with keys. A prefix that ends in `/` acts as a directory; a key of the same name
as the listed prefix is its marker and is not shown.
-/
namespace HarvestPlan

open Json (Value)

inductive RequestFault where
  | refused (code : Option Value) (reason : String)
  | noEndpoint (url : String)
  | noCredentials
deriving Repr

namespace RequestFault

def unknownCode : String := "Unknown"

def message (operation : String) : RequestFault → String
  | refused code reason =>
    "An error occurred (" ++ (code.getD (.str unknownCode)).text ++ ") when calling the " ++
      operation ++ " operation: " ++ reason
  | noEndpoint url => "Could not connect to the endpoint URL: \"" ++ url ++ "\""
  | noCredentials => "Unable to locate credentials"

def missingCodes : List String := ["404", "NoSuchKey", "NotFound"]

/-- Whether a request was refused because there is nothing under its key. A code with parts cannot
    be looked up. -/
def isMissing : RequestFault → Except Failure Bool
  | refused (some (.str code)) _ => .ok (missingCodes.contains code)
  | refused (some code) _ => if code.isKey then .ok false else .error .wrongKind
  | _ => .ok false

end RequestFault

/-- Times are in microseconds; one that is not known is the start of the count. -/
structure HeadAnswer where
  size : Option Value
  modified : Value
deriving Repr

/-- An owner that cannot be understood only matters if the object is shown. -/
structure ListedObject where
  key : Value
  size : Value
  modified : Value
  owner : Except Failure Value

/-- A page of a listing: the prefixes below the listed one up to the next slash, and the objects
    directly in it. Some of them may not be understood. -/
structure Page where
  folders : List (Except Failure String)
  objects : List (Except Failure ListedObject)

/-- The answers of a bucket. A key without one does not exist, a prefix without one has nothing
    below it. A probe tells whether there is anything below a prefix. -/
structure Bucket where
  connectFault : Option RequestFault
  headFault : Option RequestFault
  heads : List (String × Except RequestFault HeadAnswer)
  probes : List (String × Except RequestFault Bool)
  listings : List (String × List (Except RequestFault Page))

namespace Bucket

def head (bucket : Bucket) (key : String) : Except RequestFault HeadAnswer :=
  (bucket.heads.lookup key).getD (.error (.refused (some (.str "404")) "Not Found"))

def probe (bucket : Bucket) (folder : String) : Except RequestFault Bool :=
  (bucket.probes.lookup folder).getD (.ok false)

def pages (bucket : Bucket) (folder : String) : List (Except RequestFault Page) :=
  (bucket.listings.lookup folder).getD []

def isSlash (c : Char) : Bool := c == '/'

def withoutTrailing (key : String) : String := String.ofList (Text.trimEnd isSlash key.toList)

def endsInSlash (key : String) : Bool := key.toList.getLast? == some '/'

def lastSegment (key : String) : String :=
  match Text.cutLast? '/' key.toList with
  | some (_, last) => String.ofList last
  | none => key

/-- The key that a path means: the path of a URI, or the text itself, without leading slashes. -/
def keyOf (path : String) : Except Failure String := do
  let path ← match Text.fromFirst? [':', '/', '/'] path.toList with
    | none => pure path
    | some _ => (·.path) <$> Uri.parse path
  pure (String.ofList (path.toList.dropWhile isSlash))

def pathOf (name : Value) (key : String) : String := "s3a://" ++ name.text ++ "/" ++ key

def folderPermission : Int := 0o777

def objectPermission : Int := 0o666

def folderStatus (name : Value) (key : String) : Status :=
  let last := lastSegment (withoutTrailing key)
  { path := pathOf name key
    name := if last.isEmpty then name else .str last
    size := .int 0
    modified := 0
    owner := .str ""
    isDirectory := true
    permission := folderPermission }

def microsecondsPerSecond : Nat := 1000000

def modifiedMilliseconds (microseconds : Value) : Except Failure Int :=
  match microseconds with
  | .null => .ok 0
  | .float us => wholeMilliseconds (us.scaleBy 1 microsecondsPerSecond)
  | .int us => wholeMilliseconds (.ofSignedRatio us microsecondsPerSecond)
  | .bool us => wholeMilliseconds (.ofSignedRatio (Quantity.ofBool us) microsecondsPerSecond)
  | .str _ | .arr _ | .obj _ => .error .wrongKind

def objectStatus (name : Value) (key : String) (size modified owner : Value) :
    Except Failure Status := do
  let modified ← modifiedMilliseconds modified
  pure
    { path := pathOf name key
      name := .str (lastSegment key)
      size := size
      modified := modified
      owner := owner
      isDirectory := false
      permission := objectPermission }

/-- A refused request is an error of the system; without any way to make requests the storage is
    lost. -/
def requestFailure (action request operation : String) (name : Value) (key : String)
    (fault : RequestFault) : Failure :=
  let text := fault.message operation
  match fault with
  | .refused .. => .system (.plain ("Cannot " ++ action ++ " " ++ pathOf name key ++ ": " ++ text))
  | .noEndpoint _ | .noCredentials =>
    .lost ⟨"S3 " ++ request ++ " failed for " ++ pathOf name key ++ ": " ++ text, none,
      some "amazons3"⟩

def statFolder (bucket : Bucket) (name : Value) (key : String) : Except Failure Status :=
  let folder := withoutTrailing key ++ "/"
  match bucket.probe folder with
  | .error fault => .error (requestFailure "stat" "request" "ListObjectsV2" name key fault)
  | .ok true => .ok (folderStatus name folder)
  | .ok false => .error (.system (.notFound ("No such key or prefix: " ++ pathOf name key)))

/-- A key is an object if it does not end in a slash and one is found under it, else a folder. -/
def statKey (bucket : Bucket) (name : Value) (key : String) : Except Failure Status :=
  if key.isEmpty then .ok (folderStatus name "")
  else if endsInSlash key then bucket.statFolder name key
  else match bucket.head key with
    | .ok answer => match answer.size with
      | some size => objectStatus name key size answer.modified (.str "")
      | none => .error (.lacksKey "ContentLength")
    | .error fault => do
      if ← fault.isMissing then bucket.statFolder name key
      else throw (requestFailure "stat" "request" "HeadObject" name key fault)

/-- The status of an object that is listed; the marker of the listed prefix itself has none. -/
def listedStatus (name : Value) (folder : String) (object : ListedObject) :
    Except Failure (Option Status) :=
  if object.key = .str folder then .ok none
  else do
    let owner ← object.owner
    match object.key with
    | .str key => some <$> objectStatus name key object.size object.modified owner
    | _ => throw .lacksOperation

/-- What a page shows: all its prefixes, and after them its objects. -/
def pageStatuses (name : Value) (folder : String) (page : Page) :
    Except Failure (List Status) := do
  let folders ← page.folders.mapM (folderStatus name <$> ·)
  let objects ← page.objects.mapM (· >>= listedStatus name folder)
  pure (folders ++ objects.filterMap id)

def pagesStatuses (name : Value) (folder : String) : List (Except RequestFault Page) →
    Except Failure (List Status)
  | [] => .ok []
  | .error fault :: _ =>
    .error (requestFailure "list" "listing" "ListObjectsV2" name folder fault)
  | .ok page :: rest => do
    let statuses ← pageStatuses name folder page
    let others ← pagesStatuses name folder rest
    pure (statuses ++ others)

def folderOf (key : String) : String := if key.isEmpty then "" else withoutTrailing key ++ "/"

def listKey (bucket : Bucket) (name : Value) (key : String) : Except Failure (List Status) := do
  let folder := folderOf key
  sortByName (← pagesStatuses name folder (bucket.pages folder))

/-- A value with parts can be searched for the mark of a URI and then is no path; any other that is
    no text cannot even be searched. -/
def refusePath (path : Value) : Failure := if path.isKey then .wrongKind else .lacksOperation

def backend (bucket : Bucket) (name : Value) : Backend where
  tag := some "amazons3"
  hasClient := true
  refuse := refusePath
  normalizeRoot root := do pure ("/" ++ (← keyOf root))
  stat path := do bucket.statKey name (← keyOf path)
  list path := ⟨[], do bucket.listKey name (← keyOf path)⟩

def answerSize : Except RequestFault Page → Nat
  | .ok page => page.folders.length + page.objects.length
  | .error _ => 0

def listedCount (bucket : Bucket) : Nat :=
  (bucket.listings.flatMap (·.2)).foldr (fun answer count => answerSize answer + count) 0

/-- More entries than any root has that does not lead back into itself. -/
def walkLimit (bucket : Bucket) : Nat := twoTo (bucket.listedCount + 64)

end Bucket
end HarvestPlan
