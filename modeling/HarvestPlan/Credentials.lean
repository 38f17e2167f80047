import HarvestPlan.Entry.Fault

namespace HarvestPlan

open Json (Value Fields)

inductive BackendType where
  | localFiles
  | amazonS3
deriving DecidableEq, Repr

namespace BackendType

def tag : BackendType → String
  | localFiles => "local"
  | amazonS3 => "amazons3"

def all : List BackendType := [localFiles, amazonS3]

def ofTag? (tag : String) : Option BackendType := all.find? fun backend => backend.tag == tag

def fieldNames : BackendType → List String
  | localFiles => ["fsUri"]
  | amazonS3 => ["accessKeyId", "secretKeyId", "region", "bucketName"]

end BackendType

def backendTypeField : String := "backendType"

/-- Those of the known backends, and objects of another make: one that claims a tag, and one
    without any. -/
inductive Credentials where
  | localFiles (fsUri : Value)
  | amazonS3 (accessKeyId secretKeyId region bucketName : Value)
  | foreign (make : String) (tag : Value)
  | tagless (make : String)
deriving Repr, DecidableEq

def backendOfTag (tag : Value) : Except EntryFault BackendType :=
  if !tag.isKey then .error (.notAKey tag.kindName)
  else match tag with
    | .str s => match BackendType.ofTag? s with
      | some backend => .ok backend
      | none => .error (.unknownBackend tag)
    | _ => .error (.unknownBackend tag)

def credentialSchema (tag : Value) : Except EntryFault (List (String × String)) := do
  let backend ← backendOfTag tag
  pure ((backendTypeField :: backend.fieldNames).map (·, "string"))

namespace Credentials

def tag : Credentials → Value
  | localFiles _ => .str BackendType.localFiles.tag
  | amazonS3 .. => .str BackendType.amazonS3.tag
  | foreign _ tag => tag
  | tagless _ => .null

def tag? : Credentials → Option Value
  | tagless _ => none
  | credentials => some credentials.tag

def toFields (credentials : Credentials) : Except EntryFault Fields := do
  let tag := credentials.tag
  let _ ← backendOfTag tag
  match credentials with
  | localFiles fsUri => pure [(backendTypeField, tag), ("fsUri", fsUri)]
  | amazonS3 accessKeyId secretKeyId region bucketName =>
    pure [(backendTypeField, tag), ("accessKeyId", accessKeyId), ("secretKeyId", secretKeyId),
      ("region", region), ("bucketName", bucketName)]
  | foreign make _ | tagless make => throw (.foreignCredentials make tag)

def fromRecord (backend : BackendType) (record : Fields) : Credentials :=
  match backend with
  | .localFiles => localFiles (record.findOrNull "fsUri")
  | .amazonS3 =>
    amazonS3 (record.findOrNull "accessKeyId") (record.findOrNull "secretKeyId")
      (record.findOrNull "region") (record.findOrNull "bucketName")

/-- The credentials in a record. All fields of its backend must be there, whatever they hold. -/
def ofFields (record : Fields) : Except EntryFault Credentials := do
  let some tag := record.find? backendTypeField | throw .noBackendType
  let backend ← backendOfTag tag
  match backend.fieldNames.filter fun name => !record.has name with
  | [] => pure (fromRecord backend record)
  | missing => throw (.lacksCredentialFields tag missing)

def shown : Credentials → String
  | localFiles fsUri => "LocalCredentials(fs_uri=" ++ fsUri.shown ++ ")"
  | amazonS3 accessKeyId _ region bucketName =>
    "S3Credentials(access_key_id=" ++ accessKeyId.shown ++ ", region=" ++ region.shown ++
      ", bucket_name=" ++ bucketName.shown ++ ")"
  | foreign make _ | tagless make => make ++ "()"

end Credentials
end HarvestPlan
