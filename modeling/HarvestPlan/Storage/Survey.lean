import HarvestPlan.Storage.Opened

/-!
Surveys: filesystems and buckets described in JSON. A field that is absent takes its default. What a
storage hands on is kept as it is described; what a bucket lists and cannot be understood fails when
it is reached.
-/
namespace HarvestPlan.Survey

open Json (Value Fields)

def fieldsOf : Value → Fields
  | .obj fields => fields
  | _ => []

def itemsOf : Value → List Value
  | .arr items => items
  | _ => []

def textOr (standard : String) : Value → String
  | .str s => s
  | _ => standard

def textOption : Value → Option String
  | .str s => some s
  | _ => none

def valueOr (standard : Value) (fields : Fields) (name : String) : Value :=
  (fields.find? name).getD standard

def numberOf (value : Value) : Binary64 :=
  (value.quantity?.bind Quantity.toBinary?).getD (.zero false)

def nodeFault (value : Value) : Option NodeFault :=
  match value with
  | .obj object =>
    let fields : Fields := object
    if fields.has "fatal" then some (.fatal (fields.findOrNull "fatal").text)
    else if fields.has "interrupt" then some .interrupt
    else
      some (.system (fields.findOrNull "errno") (fields.findOrNull "strerror").text)
  | _ => none

def node (value : Value) : Node :=
  let fields := fieldsOf value
  { path := textOr "/" (fields.findOrNull "path")
    mode := fields.findOrNull "mode"
    size := valueOr (.int 0) fields "size"
    modified := numberOf (fields.findOrNull "mtime")
    uid := valueOr (.int 0) fields "uid"
    target := textOption (fields.findOrNull "target")
    statFault := nodeFault (fields.findOrNull "stat_error")
    lstatFault := nodeFault (fields.findOrNull "lstat_error")
    listFault := nodeFault (fields.findOrNull "list_error") }

def directoryMode : Int := 0o40755

def loneRoot : Node where
  path := "/"
  mode := .int directoryMode
  size := .int 0
  modified := .zero false
  uid := .int 0
  target := none
  statFault := none
  lstatFault := none
  listFault := none

def defaultUsers : Fields := [("0", .str "root"), ("1000", .str "alice")]

def users : Value → Fields
  | .obj fields => fields
  | _ => defaultUsers

def filesystem (value : Value) : Filesystem :=
  let fields := fieldsOf value
  { nodes := match fields.findOrNull "nodes" with
      | .arr nodes => nodes.map node
      | _ => [loneRoot]
    directory := textOr "/" (fields.findOrNull "cwd")
    users := users (fields.findOrNull "users")
    hasOwners := textOr "posix" (fields.findOrNull "os_name") != "nt" }

def requestFault (value : Value) : Option RequestFault :=
  match value with
  | .obj object =>
    let fields : Fields := object
    match fields.findOrNull "kind" with
    | .str "endpoint" => some (.noEndpoint (fields.findOrNull "url").text)
    | .str "nocreds" => some .noCredentials
    | _ =>
      let message := valueOr (.str "Unknown") fields "message"
      some (.refused (fields.find? "code") message.text)
  | _ => none

def answerOf {α : Type} (read : Fields → α) (value : Value) : Except RequestFault α :=
  match requestFault ((fieldsOf value).findOrNull "error") with
  | some fault => .error fault
  | none => .ok (read (fieldsOf value))

def modifiedOf (fields : Fields) : Value := fields.findOrNull "LastModified"

def headAnswer (fields : Fields) : HeadAnswer :=
  ⟨fields.find? "ContentLength", modifiedOf fields⟩

def itemFields : Value → Except Failure Fields
  | .obj fields => .ok fields
  | _ => .error .wrongKind

def requiredText (fields : Fields) (name : String) : Except Failure String :=
  match fields.find? name with
  | some (.str s) => .ok s
  | some _ => .error .lacksOperation
  | none => .error (.lacksKey name)

def ownerOf (fields : Fields) : Except Failure Value :=
  match fields.find? "Owner" with
  | none => .ok (.str "")
  | some (.obj owner) => .ok (valueOr (.str "") owner "DisplayName")
  | some _ => .error .lacksOperation

def listedFolder (item : Value) : Except Failure String := do
  requiredText (← itemFields item) "Prefix"

def listedObject (item : Value) : Except Failure ListedObject := do
  let fields ← itemFields item
  match fields.find? "Key" with
  | some key => pure ⟨key, valueOr (.int 0) fields "Size", modifiedOf fields, ownerOf fields⟩
  | none => throw (.lacksKey "Key")

/-- What the items of a field are read as. There are none if it is absent, and a field that has no
    items is one fault. -/
def itemsIn {α : Type} (fields : Fields) (name : String) (read : Value → Except Failure α) :
    List (Except Failure α) :=
  match (valueOr (.arr []) fields name).items? with
  | some items => items.map read
  | none => [.error .wrongKind]

def page (fields : Fields) : Page :=
  ⟨itemsIn fields "CommonPrefixes" listedFolder, itemsIn fields "Contents" listedObject⟩

def probeAnswer (fields : Fields) : Bool :=
  ["KeyCount", "Contents", "CommonPrefixes"].any fun name =>
    !(fields.findOrNull name).isEmpty

def bucket (value : Value) : Bucket :=
  let fields := fieldsOf value
  { connectFault := requestFault (fields.findOrNull "connect")
    headFault := requestFault ((fieldsOf (fields.findOrNull "head_bucket")).findOrNull "error")
    heads := (fieldsOf (fields.findOrNull "head")).map fun (key, answer) =>
      (key, answerOf headAnswer answer)
    probes := (fieldsOf (fields.findOrNull "probe")).map fun (folder, answer) =>
      (folder, answerOf probeAnswer answer)
    listings := (fieldsOf (fields.findOrNull "pages")).map fun (folder, answers) =>
      (folder, (itemsOf answers).map (answerOf page)) }

def surroundings (filesystemValue bucketValue : Value) : Surroundings :=
  ⟨filesystem filesystemValue, bucket bucketValue⟩

end HarvestPlan.Survey
