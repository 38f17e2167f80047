import HarvestPlan.Json.Value
import HarvestPlan.Text.Quoted

namespace HarvestPlan.Json.Value

mutual

def shown : Value → String
  | .null => "None"
  | .bool b => (Quantity.flag b).text
  | .int i => toString i
  | .float x => x.shortText
  | .str s => Text.quoted s
  | .arr items => "[" ++ ", ".intercalate (shownItems items) ++ "]"
  | .obj fields => "\x7b" ++ ", ".intercalate (shownFields fields) ++ "\x7d"

def shownItems : List Value → List String
  | [] => []
  | item :: rest => shown item :: shownItems rest

def shownFields : List (String × Value) → List String
  | [] => []
  | (name, value) :: rest => (Text.quoted name ++ ": " ++ shown value) :: shownFields rest

end

def text : Value → String
  | .str s => s
  | value => value.shown

end HarvestPlan.Json.Value
