import HarvestPlan.Credentials

namespace HarvestPlan

open Json (Value Fields)

structure Entry where
  fileName : Value
  fullPath : Value
  size : Quantity
  timestamp : Value
  owner : Value
  isFolder : Value
  basePath : String
  permission : Quantity
  credentials : Credentials
deriving Repr, DecidableEq

namespace Entry

structure Draft where
  fileName : Value
  fullPath : Value
  size : Value
  timestamp : Value
  owner : Value
  isFolder : Value
  basePath : Value
  permission : Value
  credentials : Credentials

def greatestPermission : Int := 0xffff

def checkSize (fullPath size : Value) : Except EntryFault Quantity :=
  match size.quantity? with
  | none => .error (.incomparable "<" size.kindName "int")
  | some size => if size.less (.int 0) then .error (.negativeSize fullPath size) else .ok size

def checkPermission (permission : Value) : Except EntryFault Quantity :=
  match permission.quantity? with
  | none => .error (.incomparable "<=" "int" permission.kindName)
  | some permission =>
    if (Quantity.int 0).atMost permission && permission.atMost (.int greatestPermission) then
      .ok permission
    else .error (.permissionOutOfRange permission)

def checkBasePath : Value → Except EntryFault String
  | .str basePath =>
    if basePath.toList.head? = some '/' then .error (.absoluteBasePath basePath) else .ok basePath
  | _ => .error .notAText

/-- Size, permission and base path are checked in this order. -/
def ofDraft (draft : Draft) : Except EntryFault Entry := do
  let size ← checkSize draft.fullPath draft.size
  let permission ← checkPermission draft.permission
  let basePath ← checkBasePath draft.basePath
  pure ⟨draft.fileName, draft.fullPath, size, draft.timestamp, draft.owner, draft.isFolder,
    basePath, permission, draft.credentials⟩

def shown (entry : Entry) : String :=
  "FileMetadata(file_name=" ++ entry.fileName.shown ++ ", full_path=" ++ entry.fullPath.shown ++
    ", file_size=" ++ entry.size.text ++ ", timestamp=" ++ entry.timestamp.shown ++
    ", owner=" ++ entry.owner.shown ++ ", is_folder=" ++ entry.isFolder.shown ++
    ", base_path=" ++ Text.quoted entry.basePath ++ ", permission=" ++ entry.permission.text ++
    ", credentials=" ++ entry.credentials.shown ++ ")"

end Entry
end HarvestPlan
