import HarvestPlan.Connection
import HarvestPlan.Balance
import HarvestPlan.Text.Digit
import HarvestPlan.Text.Segments

namespace HarvestPlan

open Json (Value Fields)

/-- Source roots: a list of paths, one text that stands for its characters, or an object that
    stands for the names of its fields. -/
inductive SourcePaths where
  | listed (paths : List String)
  | spelled (text : String)
  | named (fields : Fields)
deriving Repr, DecidableEq

namespace SourcePaths

def toList : SourcePaths → List String
  | listed paths => paths
  | spelled text => text.toList.map fun c => String.ofList [c]
  | named fields => fields.map (·.1)

def toValue : SourcePaths → Value
  | listed paths => .ofStrings paths
  | spelled text => .str text
  | named fields => .obj fields

/-- The items between the commas, without the blanks around them and without blank items. -/
def parse (text : String) : List String :=
  ((Text.cut ',' text.toList).map fun item => Text.trim Text.isBlank item).filterMap fun item =>
    if item = [] then none else some (String.ofList item)

def parseValue : Value → Except Failure (List String)
  | .str text => .ok (parse text)
  | _ => .error .lacksOperation

def checkPath : Value → Except Failure String
  | .str "" => .error (.refused (.badSourcePath (.str "")))
  | .str path => .ok path
  | other => .error (.refused (.badSourcePath other))

/-- An array of paths, the names of an object, or the characters of a text; none of them may be
    empty. -/
def ofValue (value : Value) : Except Failure SourcePaths :=
  if value.isEmpty then .error (.refused .noSourcePath)
  else match value with
    | .arr items => listed <$> items.mapM checkPath
    | .obj fields => do
      let _ ← fields.mapM fun field => checkPath (.str field.1)
      pure (named fields)
    | .str text => .ok (spelled text)
    | _ => .error .wrongKind

end SourcePaths

/-- A harvest is recursive unless that value stands for nothing. -/
structure Config where
  sourcePaths : SourcePaths
  connection : Connection
  recursive : Value
  cap : Int
deriving Repr, DecidableEq

namespace Config

def checkCap : Value → Except Failure Int
  | .int cap => if cap < 1 then .error (.refused (.notPositive (.int cap))) else .ok cap
  | other => .error (.refused (.notPositive other))

def ofValues (sourcePaths : Value) (connection : Connection) (recursive : Value) (cap : Value) :
    Except Failure Config := do
  let sourcePaths ← SourcePaths.ofValue sourcePaths
  let cap ← checkCap cap
  pure ⟨sourcePaths, connection, recursive, cap⟩

def credentials (config : Config) : Credentials := config.connection.credentials

def isRecursive (config : Config) : Bool := !config.recursive.isEmpty

end Config
end HarvestPlan
