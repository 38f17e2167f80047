import HarvestPlan.Failure
import HarvestPlan.Text.Segments
import HarvestPlan.Text.Trim

/-!
Base paths: where an entry goes below the destination of its source root. A root that ends in a
separator is left out; of any other root the last segment is kept, so that the root folder itself
keeps its name in every base path.
-/
namespace HarvestPlan.BasePath

open Json (Value)
open Text (cut join fromFirst? trimEnd trim)

def isSlash (c : Char) : Bool := c == '/'

def withoutAuthority (path : List Char) : List Char :=
  match fromFirst? [':', '/', '/'] path with
  | none => path
  | some marked => match (marked.drop 3).dropWhile (!isSlash ·) with
    | [] => ['/']
    | rest => rest

def droppedSegments (root trimmed : List Char) : Nat :=
  let count := (cut '/' trimmed).length
  if root.getLast? = some '/' then count else count - 1

def below (root trimmed path : List Char) : List Char :=
  trim isSlash (join '/' ((cut '/' path).drop (droppedSegments root trimmed)))

def underRoot (fullPath root : String) : Except Failure String :=
  let trimmed := trimEnd isSlash root.toList
  match fromFirst? trimmed (withoutAuthority fullPath.toList) with
  | none => .error (.refused (.outsideRoot fullPath root))
  | some path => .ok (String.ofList (below root.toList trimmed path))

/-- An empty root leaves the name alone. -/
def compute (fullPath root : String) (name : Value) : Except Failure Value :=
  if root.isEmpty then .ok name else .str <$> underRoot fullPath root

/-- The root is looked at first, and then the full path; either must be a text. -/
def ofValues (fullPath root name : Value) : Except Failure Value :=
  match root, fullPath with
  | .str root, .str fullPath => compute fullPath root name
  | .str "", _ => .ok name
  | _, _ => .error .lacksOperation

end HarvestPlan.BasePath
