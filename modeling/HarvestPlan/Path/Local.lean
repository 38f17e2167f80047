import HarvestPlan.Path.Absolute

namespace HarvestPlan.Path

open Text (cut join)

def printedComponents (path : List Char) : List (List Char) :=
  (cut separator path).filter fun component => component ≠ [] ∧ component ≠ ['.']

def printed (path : String) : String :=
  let cs := path.toList
  match List.replicate (leadingSeparators cs) separator ++
      join separator (printedComponents cs) with
  | [] => "."
  | text => String.ofList text

end HarvestPlan.Path
