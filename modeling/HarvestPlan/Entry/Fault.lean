import HarvestPlan.Json.Shown

namespace HarvestPlan

inductive EntryFault where
  | unknownBackend (tag : Json.Value)
  | foreignCredentials (make : String) (tag : Json.Value)
  | noBackendType
  | lacksCredentialFields (tag : Json.Value) (names : List String)
  | lacksFields (names : List String)
  | negativeSize (fullPath : Json.Value) (size : Quantity)
  | permissionOutOfRange (permission : Quantity)
  | absoluteBasePath (basePath : String)
  | incomparable (relation left right : String)
  | notAKey (kind : String)
  | notAText
deriving Repr, DecidableEq

namespace EntryFault

def commaList (names : List String) : String := ", ".intercalate names

def message : EntryFault → String
  | unknownBackend tag => "Unknown backend type: " ++ tag.shown
  | foreignCredentials make tag =>
    "Credentials of type " ++ make ++ " do not match backend type " ++ tag.shown
  | noBackendType => "Record has no backendType field"
  | lacksCredentialFields tag names =>
    "Record for backend type " ++ tag.shown ++ " is missing fields: " ++ commaList names
  | lacksFields names => "Record is missing fields: " ++ commaList names
  | negativeSize fullPath size =>
    "Negative file size for " ++ fullPath.text ++ ": " ++ size.text
  | permissionOutOfRange permission =>
    "Permission does not fit in 16 bits: " ++ permission.text
  | absoluteBasePath basePath => "Base path must be relative: " ++ basePath
  | incomparable relation left right =>
    Text.quoted relation ++ " not supported between instances of " ++ Text.quoted left ++
      " and " ++ Text.quoted right
  | notAKey kind => "unhashable type: " ++ Text.quoted kind
  | notAText => "a text is required"

/-- A reader skips an entry whose fault is in its values; that a value is no text where one is
    taken apart ends the whole read. -/
def isCollected : EntryFault → Bool
  | notAText => false
  | _ => true

end EntryFault
end HarvestPlan
