import HarvestPlan.Credentials

namespace HarvestPlan

open Json (Value)

inductive Connection where
  | localFiles (uri : Value)
  | amazonS3 (accessKeyId secretKeyId bucketName region endpointUrl : Value)
deriving Repr, DecidableEq

namespace Connection

def defaultUri : String := "file:///"

def backendType : Connection → BackendType
  | localFiles _ => .localFiles
  | amazonS3 .. => .amazonS3

def credentials : Connection → Credentials
  | localFiles uri => .localFiles uri
  | amazonS3 accessKeyId secretKeyId bucketName region _ =>
    .amazonS3 accessKeyId secretKeyId region bucketName

def shown : Connection → String
  | localFiles uri => "LocalConnection(uri=" ++ uri.shown ++ ")"
  | amazonS3 _ _ bucketName region _ =>
    "S3Connection(bucket_name=" ++ bucketName.shown ++ ", region=" ++ region.shown ++ ")"

end Connection
end HarvestPlan
