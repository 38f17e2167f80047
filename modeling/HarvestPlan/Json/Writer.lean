import HarvestPlan.Json.Value
import HarvestPlan.Text.Digit
import HarvestPlan.Text.Quoted

namespace HarvestPlan.Json

def unitEscape (unit : Nat) : List Char := '\\' :: 'u' :: Text.hexDigits 4 unit

def codeUnits (c : Char) : List Nat :=
  if c.toNat < 0x10000 then [c.toNat]
  else [0xd800 + (c.toNat - 0x10000) / 0x400, 0xdc00 + (c.toNat - 0x10000) % 0x400]

def escapedChar (c : Char) : List Char :=
  match c with
  | '"' => ['\\', '"']
  | '\\' => ['\\', '\\']
  | '\n' => ['\\', 'n']
  | '\r' => ['\\', 'r']
  | '\t' => ['\\', 't']
  | '\x08' => ['\\', 'b']
  | '\x0c' => ['\\', 'f']
  | _ => if 0x20 ≤ c.toNat ∧ c.toNat < 0x7f then [c] else (codeUnits c).flatMap unitEscape

def writtenString (s : String) : List Char :=
  '"' :: s.toList.flatMap escapedChar ++ ['"']

def writtenFloat : Binary64 → List Char
  | .nan => "NaN".toList
  | .infinite negative => signText negative "Infinity".toList
  | x => x.shortText.toList

mutual

def written : Value → List Char
  | .null => "null".toList
  | .bool b => (if b then "true" else "false").toList
  | .int i => (toString i).toList
  | .float x => writtenFloat x
  | .str s => writtenString s
  | .arr items => '[' :: writtenItems items ++ [']']
  | .obj fields => '\x7b' :: writtenFields fields ++ ['\x7d']

def writtenItems : List Value → List Char
  | [] => []
  | [item] => written item
  | item :: rest => written item ++ ',' :: ' ' :: writtenItems rest

def writtenFields : List (String × Value) → List Char
  | [] => []
  | [(name, value)] => writtenString name ++ ':' :: ' ' :: written value
  | (name, value) :: rest =>
    writtenString name ++ ':' :: ' ' :: written value ++ ',' :: ' ' :: writtenFields rest

end

mutual

def isWritable : Value → Bool
  | .int i => (Nat.toDigits 10 i.natAbs).length ≤ Text.maxIntegerDigits
  | .arr items => areWritable items
  | .obj fields => areFieldsWritable fields
  | _ => true

def areWritable : List Value → Bool
  | [] => true
  | item :: rest => isWritable item && areWritable rest

def areFieldsWritable : List (String × Value) → Bool
  | [] => true
  | (_, value) :: rest => isWritable value && areFieldsWritable rest

end

def write (value : Value) : String := String.ofList (written value)

end HarvestPlan.Json
