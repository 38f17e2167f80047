import HarvestPlan.Entry.Basic

/-!
Records: entries as JSON objects. A record has eight fixed fields and then the fields of its
credentials, always in the order of the schema.
-/
namespace HarvestPlan

open Json (Value Fields)

namespace Entry

def fixedSchema : List (String × String) :=
  [("fileName", "string"), ("fullPath", "string"), ("fileSize", "long"), ("timeStamp", "long"),
    ("owner", "string"), ("isFolder", "boolean"), ("basePath", "string"), ("permission", "short")]

def recordSchema (tag : Value) : Except EntryFault (List (String × String)) := do
  let credentials ← credentialSchema tag
  pure (fixedSchema ++ credentials)

def fixedFields (entry : Entry) : Fields :=
  [("fileName", entry.fileName), ("fullPath", entry.fullPath),
    ("fileSize", .ofQuantity entry.size), ("timeStamp", entry.timestamp), ("owner", entry.owner),
    ("isFolder", entry.isFolder), ("basePath", .str entry.basePath),
    ("permission", .ofQuantity entry.permission)]

def toRecord (entry : Entry) : Except EntryFault Fields := do
  let credentials ← entry.credentials.toFields
  pure (entry.fixedFields ++ credentials)

def draftOf (record : Fields) (credentials : Credentials) : Draft where
  fileName := record.findOrNull "fileName"
  fullPath := record.findOrNull "fullPath"
  size := record.findOrNull "fileSize"
  timestamp := record.findOrNull "timeStamp"
  owner := record.findOrNull "owner"
  isFolder := record.findOrNull "isFolder"
  basePath := record.findOrNull "basePath"
  permission := record.findOrNull "permission"
  credentials := credentials

def missingFields (record : Fields) : List String :=
  (fixedSchema.map (·.1)).filter fun name => !record.has name

/-- The entry of a record. Credentials that are given take the place of those in the record, which
    are then not looked at. -/
def ofRecord (record : Fields) (given : Option Credentials) : Except EntryFault Entry :=
  match missingFields record with
  | [] => do
    let credentials ← match given with
      | some credentials => pure credentials
      | none => Credentials.ofFields record
    ofDraft (draftOf record credentials)
  | missing => .error (.lacksFields missing)

end Entry
end HarvestPlan
