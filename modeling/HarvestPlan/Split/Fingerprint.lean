import HarvestPlan.Split.Basic
import HarvestPlan.Hash64
import HarvestPlan.Text.Quoted

namespace HarvestPlan

namespace Fingerprint

def pathBytes (path : String) : List UInt8 :=
  path.toList.flatMap String.utf8EncodeChar ++ [0]

def encoding (paths : List String) : List UInt8 := paths.flatMap pathBytes

def ofPaths (paths : List String) : String :=
  String.ofList (Text.hexDigits 16 (Hash64.hash (encoding paths)).toNat)

end Fingerprint

namespace Split

def paths? (split : Split) : Option (List String) := split.members.toList.mapM Member.pathText?

def fingerprint (split : Split) : Except Failure String :=
  match split.paths? with
  | some paths => .ok (Fingerprint.ofPaths paths)
  | none => .error .lacksOperation

end Split
end HarvestPlan
