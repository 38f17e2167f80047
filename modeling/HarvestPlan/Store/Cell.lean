import HarvestPlan.Json.Value

namespace HarvestPlan

open Json (Value)

inductive Cell where
  | number (value : Quantity)
  | text (s : String)
deriving Repr, DecidableEq

namespace Cell

def ofInt (n : Int) : Cell := .number (.int n)

def same : Cell → Cell → Bool
  | .number a, .number b => a.same b
  | .text s, .text t => s == t
  | _, _ => false

def atMost : Cell → Cell → Bool
  | .number a, .number b => a.atMost b
  | .number _, .text _ => true
  | .text _, .number _ => false
  | .text s, .text t => !decide (t < s)

def toValue : Cell → Value
  | .number value => .ofQuantity value
  | .text s => .str s

def ofValue? : Value → Option Cell
  | .str s => some (.text s)
  | value => value.quantity?.map .number

end Cell
end HarvestPlan
