import HarvestPlan.Text.Segments
import HarvestPlan.Text.Trim

namespace HarvestPlan.Path

open Text (cut join)

def separator : Char := '/'

def leadingSeparators : List Char → Nat
  | '/' :: '/' :: '/' :: _ => 1
  | '/' :: '/' :: _ => 2
  | '/' :: _ => 1
  | _ => 0

/-- One more component on a list of them that is held in reverse. A `..` that has nothing to take
    back is dropped below the root and kept elsewhere. -/
def step (rooted : Bool) (done : List (List Char)) (component : List Char) : List (List Char) :=
  if component = [] ∨ component = ['.'] then done
  else if component = ['.', '.'] then
    match done with
    | [] => if rooted then [] else [component]
    | last :: rest => if last = ['.', '.'] then component :: done else rest
  else component :: done

def components (path : List Char) : List (List Char) :=
  ((cut separator path).foldl (step (leadingSeparators path ≠ 0)) []).reverse

def normalize (path : List Char) : List Char :=
  match List.replicate (leadingSeparators path) separator ++ join separator (components path) with
  | [] => ['.']
  | normal => normal

def fromDirectory (directory path : List Char) : List Char :=
  if path.head? = some separator then path
  else if directory = [] ∨ directory.getLast? = some separator then directory ++ path
  else directory ++ separator :: path

def absolute (directory path : String) : String :=
  String.ofList (normalize (fromDirectory directory.toList path.toList))

def name (path : String) : String :=
  let trimmed := Text.trimEnd (· == separator) path.toList
  match (cut separator trimmed).getLast? with
  | some (c :: cs) => String.ofList (c :: cs)
  | _ => path

def endsInSeparator (path : String) : Bool := path.toList.getLast? == some separator

end HarvestPlan.Path
