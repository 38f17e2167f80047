import HarvestPlan.Entry.Fault
import HarvestPlan.Json.Reader
import HarvestPlan.Path.Host

/-!
Everything that can go wrong, by cause, with the wording of each in one place.
-/
namespace HarvestPlan

open Json (Value)

/-- A failed call of the storage: one with a number names the path it was about, one without has
    its whole text. What stands for the number may be any value. -/
inductive SystemError where
  | numbered (number : Value) (reason path : String)
  | plain (text : String)
  | notFound (text : String)
deriving Repr, DecidableEq

namespace SystemError

def noSuchFile : Value := .int 2

def isMissing : SystemError → Bool
  | numbered number _ _ => number == noSuchFile
  | plain _ => false
  | notFound _ => true

def message : SystemError → String
  | numbered number reason path =>
    "[Errno " ++ number.text ++ "] " ++ reason ++ ": " ++ Text.quoted path
  | plain text | notFound text => text

end SystemError

structure Lost where
  reason : String
  root : Option String
  backendType : Option String
deriving Repr, DecidableEq

namespace Lost

def named (label : String) : Option String → List String
  | some name => if name.isEmpty then [] else [label ++ name]
  | none => []

def message (lost : Lost) : String :=
  match named "backend=" lost.backendType ++ named "root=" lost.root with
  | [] => lost.reason
  | context => lost.reason ++ " (" ++ ", ".intercalate context ++ ")"

def orElse (given fallback : Option String) : Option String :=
  match named "" given with
  | [] => fallback
  | _ => given

/-- Fills in the root and the backend where they are not known yet. -/
def located (lost : Lost) (root backendType : String) : Lost where
  reason := lost.reason
  root := orElse lost.root (some root)
  backendType := orElse lost.backendType (some backendType)

end Lost

inductive Damage where
  | notFinalized
  | loadMismatch (load : Value) (members : Nat)
  | notAnEntry (position : Nat) (kind : String)
  | missingPosition (position : Nat)
  | notJson (position : Nat) (error : Json.ReadError)
  | notARecord (position : Nat)
  | wrongCount (expected : Value) (found : Nat)
deriving Repr, DecidableEq

namespace Damage

def text : Damage → String
  | notFinalized => " is not finalized"
  | loadMismatch load members =>
    " is corrupted: load " ++ load.text ++ " but " ++ toString members ++ " entries"
  | notAnEntry position kind =>
    " is corrupted: entry " ++ toString position ++ " is a " ++ kind
  | missingPosition position =>
    " is corrupted: missing entry at position " ++ toString position
  | notJson position error =>
    " is corrupted: entry " ++ toString position ++ " is not valid JSON (" ++ error.message ++ ")"
  | notARecord position => " is corrupted: entry " ++ toString position ++ " is not a record"
  | wrongCount expected found =>
    " is corrupted: expected " ++ expected.text ++ " entries, found " ++ toString found

end Damage

inductive OpenFault where
  | notLocal (uri : String)
  | noRoot (mount : String)
  | noBucket (bucket reason : String)
deriving Repr, DecidableEq

def OpenFault.message : OpenFault → String
  | notLocal uri => "Not a local filesystem URI: " ++ uri
  | noRoot mount => "Local filesystem root does not exist: " ++ mount
  | noBucket bucket reason => "Cannot connect to bucket " ++ bucket ++ ": " ++ reason

inductive Refusal where
  | notPositive (cap : Value)
  | noSourcePath
  | badSourcePath (path : Value)
  | missingProperty (key : String)
  | notBoolean (key : String) (value : Value)
  | notInteger (key : String) (value : Value)
  | missingS3Properties (keys : List String)
  | missingS3Options (flags : List String)
  | outsideRoot (path root : String)
  | foreignCredentials (tag : Value) (backendType : String)
  | badAuthority (fault : AuthorityFault)
  | notANumber
  | longInteger (digits : Nat)
  | unwritableInteger
  | unknownLevel (name : String)
  | endsInside
deriving Repr, DecidableEq

namespace Refusal

def message : Refusal → String
  | notPositive cap => "max_per_split must be a positive integer, got " ++ cap.shown
  | noSourcePath => "At least one source path is required"
  | badSourcePath path => "Source paths must be non-empty strings, got " ++ path.shown
  | missingProperty key => "Missing required property: " ++ key
  | notBoolean key value => key ++ " must be a boolean, got " ++ value.shown
  | notInteger key value => key ++ " must be an integer, got " ++ value.shown
  | missingS3Properties keys => "Missing required S3 properties: " ++ EntryFault.commaList keys
  | missingS3Options flags => "S3 backend requires " ++ EntryFault.commaList flags
  | outsideRoot path root => path ++ " is not under source root " ++ root
  | foreignCredentials tag backendType =>
    "Credentials for " ++ tag.shown ++ " cannot be attached to a " ++ Text.quoted backendType ++
      " harvest"
  | badAuthority fault => fault.message
  | notANumber => "cannot convert float NaN to integer"
  | longInteger digits => (Json.ReadError.longInteger digits).message
  | unwritableInteger =>
    "Exceeds the limit (" ++ toString Text.maxIntegerDigits ++
      " digits) for integer string conversion; use sys.set_int_max_str_digits() to increase the" ++
      " limit"
  | unknownLevel name => "Unknown level: " ++ Text.quoted name
  | endsInside => "embedded null byte"

end Refusal

inductive Failure where
  | refused (refusal : Refusal)
  | entry (fault : EntryFault)
  | splitFinalized (index : Value)
  | planIndex (index : Value) (count : Nat)
  | storedIndex (index : Value)
  | noOpenSplit
  | damaged (split : Value) (damage : Damage)
  | notOpened (backendType : String) (fault : OpenFault)
  | lost (context : Lost)
  | cancelled
  | interrupted
  | system (error : SystemError)
  | notProvided
  | wrongKind
  | lacksOperation
  | lacksKey (key : String)
  | beyondRange
  | tooDeep (compound : Json.Compound)
  | storeRefuses
  | storeConstraint
  | storeUnavailable
  | storeReadOnly
  | notAStore
  | unfinished
deriving Repr, DecidableEq

namespace Failure

def message : Failure → String
  | refused refusal => refusal.message
  | entry fault => fault.message
  | splitFinalized index => "Split " ++ index.text ++ " is finalized"
  | planIndex index count =>
    "Split index " ++ index.text ++ " out of range (0.." ++ toString ((count : Int) - 1) ++ ")"
  | storedIndex index => "Split index " ++ index.text ++ " out of range"
  | noOpenSplit => "index out of range"
  | damaged split damage => "Split " ++ split.text ++ damage.text
  | notOpened _ fault => fault.message
  | lost context => context.message
  | cancelled => "Harvest cancelled"
  | interrupted => ""
  | system error => error.message
  | notProvided => "the operation is not provided"
  | wrongKind => "a value of the wrong kind"
  | lacksOperation => "a value without the operation"
  | lacksKey key => Text.quoted key
  | beyondRange => "a number beyond the range"
  | tooDeep compound => (Json.ReadError.tooDeep compound).message
  | storeRefuses => "the store takes no such request"
  | storeConstraint => "the store holds no such row"
  | storeUnavailable => "the store cannot be opened"
  | storeReadOnly => "the store cannot be changed"
  | notAStore => "the file is no store"
  | unfinished => "the walk does not end"

/-- The failures that the command line reports in words instead of breaking off. -/
def isReported : Failure → Bool
  | refused _ | planIndex .. | storedIndex _ | noOpenSplit | damaged .. | notOpened .. | lost _
  | cancelled => true
  | entry (.incomparable ..) | entry (.notAKey _) | entry .notAText => false
  | entry _ => true
  | _ => false

end Failure
end HarvestPlan
