import HarvestPlan.Number.Quantity

namespace HarvestPlan.Json

inductive Value where
  | null
  | bool (b : Bool)
  | int (i : Int)
  | float (x : Binary64)
  | str (s : String)
  | arr (items : List Value)
  | obj (fields : List (String × Value))
deriving Repr, Inhabited

namespace Value

mutual

def decideEqual : (a b : Value) → Decidable (a = b)
  | .null, .null => isTrue rfl
  | .bool b, .bool c => decidable_of_iff (b = c) (by simp)
  | .int i, .int j => decidable_of_iff (i = j) (by simp)
  | .float x, .float y => decidable_of_iff (x = y) (by simp)
  | .str s, .str t => decidable_of_iff (s = t) (by simp)
  | .arr items, .arr others => match decideItems items others with
    | isTrue same => isTrue (by rw [same])
    | isFalse differ => isFalse fun same => differ (Value.arr.inj same)
  | .obj fields, .obj others => match decideFields fields others with
    | isTrue same => isTrue (by rw [same])
    | isFalse differ => isFalse fun same => differ (Value.obj.inj same)
  | .null, .bool _ | .null, .int _ | .null, .float _ | .null, .str _ | .null, .arr _
  | .null, .obj _ | .bool _, .null | .bool _, .int _ | .bool _, .float _ | .bool _, .str _
  | .bool _, .arr _ | .bool _, .obj _ | .int _, .null | .int _, .bool _ | .int _, .float _
  | .int _, .str _ | .int _, .arr _ | .int _, .obj _ | .float _, .null | .float _, .bool _
  | .float _, .int _ | .float _, .str _ | .float _, .arr _ | .float _, .obj _ | .str _, .null
  | .str _, .bool _ | .str _, .int _ | .str _, .float _ | .str _, .arr _ | .str _, .obj _
  | .arr _, .null | .arr _, .bool _ | .arr _, .int _ | .arr _, .float _ | .arr _, .str _
  | .arr _, .obj _ | .obj _, .null | .obj _, .bool _ | .obj _, .int _ | .obj _, .float _
  | .obj _, .str _ | .obj _, .arr _ => isFalse nofun

def decideItems : (items others : List Value) → Decidable (items = others)
  | [], [] => isTrue rfl
  | [], _ :: _ | _ :: _, [] => isFalse nofun
  | a :: items, b :: others => match decideEqual a b, decideItems items others with
    | isTrue first, isTrue rest => isTrue (by rw [first, rest])
    | isFalse differ, _ => isFalse fun same => differ (List.cons.inj same).1
    | _, isFalse differ => isFalse fun same => differ (List.cons.inj same).2

def decideFields : (fields others : List (String × Value)) → Decidable (fields = others)
  | [], [] => isTrue rfl
  | [], _ :: _ | _ :: _, [] => isFalse nofun
  | (name, a) :: fields, (key, b) :: others =>
    match decEq name key, decideEqual a b, decideFields fields others with
    | isTrue names, isTrue first, isTrue rest => isTrue (by rw [names, first, rest])
    | isFalse differ, _, _ => isFalse fun same =>
      differ (Prod.mk.inj (List.cons.inj same).1).1
    | _, isFalse differ, _ => isFalse fun same =>
      differ (Prod.mk.inj (List.cons.inj same).1).2
    | _, _, isFalse differ => isFalse fun same => differ (List.cons.inj same).2

end

instance : DecidableEq Value := decideEqual

end Value

abbrev Fields := List (String × Value)

namespace Fields

def find? (fields : Fields) (name : String) : Option Value := fields.lookup name

def has (fields : Fields) (name : String) : Bool := fields.any fun field => field.1 == name

def findOrNull (fields : Fields) (name : String) : Value := (find? fields name).getD .null

/-- A second value for a name replaces the first and keeps its place. -/
def put : Fields → String → Value → Fields
  | [], name, value => [(name, value)]
  | (key, old) :: rest, name, value =>
    if key = name then (key, value) :: rest else (key, old) :: put rest name value

end Fields

namespace Value

def ofStrings (texts : List String) : Value := .arr (texts.map .str)

def ofString? : Option String → Value
  | none => .null
  | some s => .str s

def text? : Value → Option String
  | .str s => some s
  | _ => none

def ofQuantity : Quantity → Value
  | .int i => .int i
  | .flag b => .bool b
  | .float x => .float x

def quantity? : Value → Option Quantity
  | .int i => some (.int i)
  | .bool b => some (.flag b)
  | .float x => some (.float x)
  | _ => none

/-- What a value gives when it is taken apart: the items of an array, the names of an object, the
    characters of a text. -/
def items? : Value → Option (List Value)
  | .arr items => some items
  | .obj fields => some (fields.map fun field => .str field.1)
  | .str s => some (s.toList.map fun c => .str (String.ofList [c]))
  | _ => none

def kindName : Value → String
  | .null => "NoneType"
  | .bool _ => "bool"
  | .int _ => "int"
  | .float _ => "float"
  | .str _ => "str"
  | .arr _ => "list"
  | .obj _ => "dict"

/-- Null, false, zero and the empty text, array and object stand for nothing. -/
def isEmpty : Value → Bool
  | .null => true
  | .bool b => !b
  | .int i => i == 0
  | .float (.finite _ mantissa _) => mantissa == 0
  | .float _ => false
  | .str s => s.isEmpty
  | .arr items => items.isEmpty
  | .obj fields => fields.isEmpty

def isKey : Value → Bool
  | .arr _ | .obj _ => false
  | _ => true

/-- Two keys are the same if they are numbers of one value, truth values among them, or equal
    texts, or both null. The number that is none is the same as itself. -/
def sameKey (a b : Value) : Bool :=
  match a, b with
  | .null, .null => true
  | .str s, .str t => s == t
  | .float .nan, .float .nan => true
  | _, _ => match a.quantity?, b.quantity? with
    | some p, some q => p.same q
    | _, _ => false

end Value
end HarvestPlan.Json
