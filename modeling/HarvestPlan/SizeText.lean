import HarvestPlan.Json.Value
import HarvestPlan.Failure

namespace HarvestPlan.SizeText

open Json (Value)

def units : List String := ["B", "KB", "MB", "GB"]

def largestUnit : String := "TB"

def inUnit (size : Quantity) (unit : String) : Except Failure String :=
  match size.toBinary? with
  | some x => .ok (x.fixedText 1 ++ " " ++ unit)
  | none => .error .beyondRange

def inUnits (size : Quantity) : List String → Except Failure String
  | [] => inUnit size largestUnit
  | unit :: larger =>
    if size.less (.int 1024) then inUnit size unit
    else match size.kilo? with
      | some size => inUnits size larger
      | none => .error .beyondRange

def ofQuantity (size : Quantity) : Except Failure String := inUnits size units

def ofValue (value : Value) : Except Failure String :=
  match value.quantity? with
  | some size => ofQuantity size
  | none => .error .wrongKind

end HarvestPlan.SizeText
