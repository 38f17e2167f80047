import HarvestPlan.Connection
import HarvestPlan.Storage.Filesystem
import HarvestPlan.Storage.Bucket

namespace HarvestPlan

structure Surroundings where
  filesystem : Filesystem
  bucket : Bucket

open Json (Value)

namespace Connection

def parseUri : Value → Except Failure Uri
  | .str uri => Uri.parse uri
  | uri => if uri.isEmpty then Uri.parse "" else .error .lacksOperation

def openLocal (fs : Filesystem) (uri : Value) : Except Failure Backend := do
  let parsed ← parseUri uri
  let fail (fault : OpenFault) : Except Failure Backend :=
    .error (.notOpened BackendType.localFiles.tag fault)
  if parsed.scheme ≠ "file" then fail (.notLocal uri.text)
  else
    let mount := if parsed.path.isEmpty then "/" else parsed.path
    if ← fs.isDirectory mount then pure fs.backend else fail (.noRoot mount)

def openBucket (bucket : Bucket) (name : Value) : Except Failure Backend :=
  let fail (operation : String) (fault : RequestFault) : Except Failure Backend :=
    .error (.notOpened BackendType.amazonS3.tag (.noBucket name.text (fault.message operation)))
  match bucket.connectFault, bucket.headFault with
  | some fault, _ => fail "Connect" fault
  | none, some fault => fail "HeadBucket" fault
  | none, none => .ok (bucket.backend name)

def openIn (surroundings : Surroundings) : Connection → Except Failure Backend
  | localFiles uri => openLocal surroundings.filesystem uri
  | amazonS3 _ _ bucketName _ _ => openBucket surroundings.bucket bucketName

def walkLimit (surroundings : Surroundings) : Connection → Nat
  | localFiles _ => surroundings.filesystem.walkLimit
  | amazonS3 .. => surroundings.bucket.walkLimit

end Connection
end HarvestPlan
