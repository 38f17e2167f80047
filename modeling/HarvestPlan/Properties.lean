import HarvestPlan.Config

namespace HarvestPlan.Properties

open Json (Value Fields)

def sourcePathsKey : String := "source.paths"
def capKey : String := "max.split.size"
def uriKey : String := "filesystem.uri"
def recursiveKey : String := "recursive.copy"
def accessKeyIdKey : String := "s3.access.key.id"
def secretKeyIdKey : String := "s3.secret.key.id"
def regionKey : String := "s3.region"
def bucketNameKey : String := "s3.bucket.name"
def endpointUrlKey : String := "s3.endpoint.url"

def trueWords : List String := ["true", "1", "yes", "on"]

def falseWords : List String := ["false", "0", "no", "off"]

/-- A truth value, or one of the words for it in any case; no character beyond ASCII has a lower
    case in one of these words. -/
def readBoolean (key : String) (value : Value) : Except Failure Bool :=
  match value with
  | .bool b => .ok b
  | _ =>
    let word := String.ofList ((Text.strip value.text).toList.map Char.toLower)
    if trueWords.contains word then .ok true
    else if falseWords.contains word then .ok false
    else .error (.refused (.notBoolean key value))

def readInteger (key : String) (value : Value) : Except Failure Int :=
  let refusal := Except.error (Failure.refused (.notInteger key value))
  match value with
  | .int i => .ok i
  | .bool b => .ok (Quantity.ofBool b)
  | .float x => match x, x.truncate? with
    | _, some i => .ok i
    | .nan, none => refusal
    | _, none => .error .beyondRange
  | .str text => match Text.integer? text with
    | some i => .ok i
    | none => refusal
  | _ => refusal

/-- The cap; the default stands in for one that is absent, null or an empty text. -/
def readCap (properties : Fields) : Except Failure Int :=
  match properties.findOrNull capKey with
  | .null | .str "" => .ok Balance.defaultCap
  | value => readInteger capKey value

def readUri (properties : Fields) : Except Failure String :=
  match properties.find? uriKey with
  | none => .ok Connection.defaultUri
  | some (.str uri) => .ok uri
  | some _ => .error .lacksOperation

def namesBucket (uri : String) : Bool := Text.startsWith uri "s3a://" || Text.startsWith uri "s3://"

def uriBucket? (uri : String) : Option String :=
  (Text.fromFirst? [':', '/', '/'] uri.toList).map fun marked =>
    String.ofList ((marked.drop 3).takeWhile (· != '/'))

def orNull (value : Value) : Value := if value.isEmpty then .null else value

def s3Connection (properties : Fields) (uri : String) : Except Failure Connection :=
  let named := properties.findOrNull bucketNameKey
  let bucketName := if !named.isEmpty then named else match uriBucket? uri with
    | some bucket => .str bucket
    | none => named
  let accessKeyId := properties.findOrNull accessKeyIdKey
  let secretKeyId := properties.findOrNull secretKeyIdKey
  let required := [(accessKeyIdKey, accessKeyId), (secretKeyIdKey, secretKeyId),
    (bucketNameKey, bucketName)]
  match (required.filter fun field => field.2.isEmpty).map (·.1) with
  | [] => .ok (.amazonS3 accessKeyId secretKeyId bucketName
      (orNull (properties.findOrNull regionKey)) (orNull (properties.findOrNull endpointUrlKey)))
  | missing => .error (.refused (.missingS3Properties missing))

def connection (properties : Fields) (uri : String) : Except Failure Connection :=
  if namesBucket uri || properties.has bucketNameKey then s3Connection properties uri
  else .ok (.localFiles (.str uri))

def toConfig (properties : Fields) : Except Failure Config := do
  let some paths := properties.find? sourcePathsKey
    | throw (.refused (.missingProperty sourcePathsKey))
  let paths ← SourcePaths.parseValue paths
  let recursive ← readBoolean recursiveKey ((properties.find? recursiveKey).getD (.bool true))
  let cap ← readCap properties
  let uri ← readUri properties
  let connection ← connection properties uri
  Config.ofValues (.ofStrings paths) connection (.bool recursive) (.int cap)

/-- The configuration of properties of any kind. Only an object has any; what is not an object but
    holds the key of the source paths cannot be asked for their value. -/
def ofValue (properties : Value) : Except Failure Config :=
  match properties with
  | .obj fields => toConfig fields
  | .arr items =>
    if items.contains (.str sourcePathsKey) then .error .wrongKind else toConfig []
  | .str text =>
    if (Text.fromFirst? sourcePathsKey.toList text.toList).isSome then .error .wrongKind
    else toConfig []
  | _ => .error .wrongKind

end HarvestPlan.Properties
