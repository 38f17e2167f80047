import HarvestPlan.Json.Value
import HarvestPlan.Text.Digit

/-!
Reading JSON text. A reader takes the characters that are left and gives a value with those that
are left after it; a fault is placed by how many characters were left where it was found. The last
of several fields of one name wins and takes the place of the first.
-/
namespace HarvestPlan.Json

inductive Cause where
  | value
  | propertyName
  | colon
  | comma
  | extraData
  | unterminatedString
  | controlCharacter
  | escape
  | unicodeEscape
  | byteOrderMark
deriving DecidableEq, Repr

namespace Cause

def text : Cause → String
  | value => "Expecting value"
  | propertyName => "Expecting property name enclosed in double quotes"
  | colon => "Expecting ':' delimiter"
  | comma => "Expecting ',' delimiter"
  | extraData => "Extra data"
  | unterminatedString => "Unterminated string starting at"
  | controlCharacter => "Invalid control character at"
  | escape => "Invalid \\escape"
  | unicodeEscape => "Invalid \\uXXXX escape"
  | byteOrderMark => "Unexpected UTF-8 BOM (decode using utf-8-sig)"

end Cause

inductive Compound where
  | array
  | object
deriving DecidableEq, Repr

def Compound.name : Compound → String
  | array => "array"
  | object => "object"

/-- What stops a reader: a fault, with how many characters were left where it was found, an integer
    that is too long, or a value inside too many others. -/
inductive Fault where
  | found (cause : Cause) (left : Nat)
  | longInteger (digits : Nat)
  | tooDeep (compound : Compound)
deriving DecidableEq, Repr

abbrev Reading (α : Type) := Except Fault (α × List Char)

def isSpace (c : Char) : Bool := c == ' ' || c == '\t' || c == '\n' || c == '\r'

def skipSpace (cs : List Char) : List Char := cs.dropWhile isSpace

def fail {α : Type} (cause : Cause) (left : List Char) : Except Fault α :=
  .error (.found cause left.length)

def unit? (a b c d : Char) : Option Nat := do
  let a ← Text.hexValue? a
  let b ← Text.hexValue? b
  let c ← Text.hexValue? c
  let d ← Text.hexValue? d
  pure (((a * 16 + b) * 16 + c) * 16 + d)

def isHighUnit (u : Nat) : Bool := 0xd800 ≤ u && u < 0xdc00

def isLowUnit (u : Nat) : Bool := 0xdc00 ≤ u && u < 0xe000

def joinUnits (high low : Nat) : Char :=
  Char.ofNat (0x10000 + (high - 0xd800) * 0x400 + (low - 0xdc00))

def unitChar (u : Nat) : Char :=
  if isHighUnit u || isLowUnit u then '\ufffd' else Char.ofNat u

def plainEscape? : Char → Option Char
  | '"' => some '"'
  | '\\' => some '\\'
  | '/' => some '/'
  | 'b' => some '\x08'
  | 'f' => some '\x0c'
  | 'n' => some '\n'
  | 'r' => some '\r'
  | 't' => some '\t'
  | _ => none

/-- The characters of a string up to its closing quote. A numeric escape needs a character after
    its digits; `opening` is how many characters were left at the opening quote. -/
def stringTail (opening : Nat) : List Char → Reading (List Char)
  | [] => .error (.found .unterminatedString opening)
  | '"' :: rest => .ok ([], rest)
  | ['\\'] => .error (.found .unterminatedString opening)
  | '\\' :: 'u' :: a :: b :: c :: d :: '\\' :: 'u' :: e :: f :: g :: h :: after :: rest =>
    match unit? a b c d with
    | none => fail .unicodeEscape
        ('u' :: a :: b :: c :: d :: '\\' :: 'u' :: e :: f :: g :: h :: after :: rest)
    | some high =>
      if isHighUnit high then
        match unit? e f g h with
        | none => fail .unicodeEscape ('u' :: e :: f :: g :: h :: after :: rest)
        | some low =>
          if isLowUnit low then
            (stringTail opening (after :: rest)).map fun (cs, left) =>
              (joinUnits high low :: cs, left)
          else
            (stringTail opening ('\\' :: 'u' :: e :: f :: g :: h :: after :: rest)).map
              fun (cs, left) => (unitChar high :: cs, left)
      else
        (stringTail opening ('\\' :: 'u' :: e :: f :: g :: h :: after :: rest)).map
          fun (cs, left) => (unitChar high :: cs, left)
  | '\\' :: 'u' :: a :: b :: c :: d :: after :: rest =>
    match unit? a b c d with
    | none => fail .unicodeEscape ('u' :: a :: b :: c :: d :: after :: rest)
    | some unit =>
      (stringTail opening (after :: rest)).map fun (cs, left) => (unitChar unit :: cs, left)
  | '\\' :: 'u' :: rest => fail .unicodeEscape ('u' :: rest)
  | '\\' :: c :: rest =>
    match plainEscape? c with
    | none => fail .escape ('\\' :: c :: rest)
    | some escaped => (stringTail opening rest).map fun (cs, left) => (escaped :: cs, left)
  | c :: rest =>
    if c < ' ' then fail .controlCharacter (c :: rest)
    else (stringTail opening rest).map fun (cs, left) => (c :: cs, left)

def readString (rest : List Char) : Reading String :=
  (stringTail (rest.length + 1) rest).map fun (cs, left) => (String.ofList cs, left)

def takeDigits (cs : List Char) : List Char × List Char :=
  (cs.takeWhile Char.isDigit, cs.dropWhile Char.isDigit)

def digitsValue (ds : List Char) : Nat :=
  Text.ofDigits (ds.map fun c => c.toNat - '0'.toNat)

def takeFraction : List Char → List Char × List Char
  | '.' :: rest =>
    match takeDigits rest with
    | ([], _) => ([], '.' :: rest)
    | (ds, left) => (ds, left)
  | cs => ([], cs)

def takeExponent (cs : List Char) : Option (Int × List Char) :=
  match cs with
  | mark :: rest =>
    if mark = 'e' ∨ mark = 'E' then
      let (negative, digits) := match rest with
        | '-' :: ds => (true, ds)
        | '+' :: ds => (false, ds)
        | ds => (false, ds)
      match takeDigits digits with
      | ([], _) => none
      | (ds, left) => some (Binary64.withSign negative (digitsValue ds), left)
    else none
  | [] => none

/-- The whole digits of a number: one zero, or digits of which the first is none. -/
def takeWhole : List Char → Option (List Char × List Char)
  | '0' :: rest => some (['0'], rest)
  | cs => match takeDigits cs with
    | ([], _) => none
    | (ds, left) => some (ds, left)

def numberOf (negative : Bool) (whole : List Char) (rest : List Char) : Reading Value :=
  let (fraction, afterFraction) := takeFraction rest
  match fraction, takeExponent afterFraction with
  | [], none =>
    if Text.maxIntegerDigits < whole.length then .error (.longInteger whole.length)
    else .ok (.int (Binary64.withSign negative (digitsValue whole)), rest)
  | _, exponent =>
    let (power, left) := exponent.getD (0, afterFraction)
    let decimal : Decimal := ⟨digitsValue (whole ++ fraction), power - fraction.length⟩
    .ok (.float (decimal.toBinary negative), left)

def readNumber (negative : Bool) (start digits : List Char) : Reading Value :=
  match takeWhole digits with
  | none => fail .value start
  | some (whole, rest) => numberOf negative whole rest

def names : List (String × Value) :=
  [("null", .null), ("true", .bool true), ("false", .bool false), ("NaN", .float .nan),
    ("Infinity", .float (.infinite false)), ("-Infinity", .float (.infinite true))]

def readName? (cs : List Char) : Option (Value × List Char) :=
  names.findSome? fun (name, value) =>
    if name.toList.isPrefixOf cs then some (value, cs.drop name.toList.length) else none

def readScalar (cs : List Char) : Reading Value :=
  match readName? cs with
  | some result => .ok result
  | none => match cs with
    | '-' :: rest => readNumber true cs rest
    | _ => readNumber false cs cs

mutual

/-- One value from the start of the text, with room for so many levels inside it; the fuel bounds
    how many values and fields are read. -/
def readValue : (fuel room : Nat) → List Char → Reading Value
  | 0, _, cs => fail .value cs
  | fuel + 1, room, cs =>
    match cs, room with
    | '"' :: rest, _ => (readString rest).map fun (s, left) => (.str s, left)
    | '[' :: _, 0 => .error (.tooDeep .array)
    | '[' :: rest, room + 1 =>
      match skipSpace rest with
      | ']' :: left => .ok (.arr [], left)
      | items => (readItems fuel room items).map fun (values, left) => (.arr values, left)
    | '\x7b' :: _, 0 => .error (.tooDeep .object)
    | '\x7b' :: rest, room + 1 =>
      match skipSpace rest with
      | '\x7d' :: left => .ok (.obj [], left)
      | fields => (readFields fuel room [] fields).map fun (read, left) => (.obj read, left)
    | _, _ => readScalar cs

def readItems : (fuel room : Nat) → List Char → Except Fault (List Value × List Char)
  | 0, _, cs => fail .value cs
  | fuel + 1, room, cs => do
    let (item, rest) ← readValue fuel room cs
    match skipSpace rest with
    | ']' :: left => pure ([item], left)
    | ',' :: more =>
      let (items, left) ← readItems fuel room (skipSpace more)
      pure (item :: items, left)
    | other => fail .comma other

def readFields : (fuel room : Nat) → Fields → List Char → Except Fault (Fields × List Char)
  | 0, _, _, cs => fail .value cs
  | fuel + 1, room, before, cs =>
    match cs with
    | '"' :: rest => do
      let (name, rest) ← readString rest
      match skipSpace rest with
      | ':' :: rest =>
        let (value, rest) ← readValue fuel room (skipSpace rest)
        let fields := before.put name value
        match skipSpace rest with
        | '\x7d' :: left => pure (fields, left)
        | ',' :: more => readFields fuel room fields (skipSpace more)
        | other => fail .comma other
      | other => fail .colon other
    | other => fail .propertyName other

end

def deepest : Nat := 990

def readText (cs : List Char) : Except Fault Value :=
  if cs.head? = some '\ufeff' then fail .byteOrderMark cs
  else do
    let start := skipSpace cs
    let (value, rest) ← readValue (2 * start.length + 1) deepest start
    match skipSpace rest with
    | [] => pure value
    | extra => fail .extraData extra

/-- Why a text is no JSON. Lines and columns count from 1, the offset from 0. -/
inductive ReadError where
  | malformed (cause : Cause) (line column offset : Nat)
  | longInteger (digits : Nat)
  | tooDeep (compound : Compound)
deriving DecidableEq, Repr

namespace ReadError

def ofFault (text : List Char) : Fault → ReadError
  | .longInteger digits => .longInteger digits
  | .tooDeep compound => .tooDeep compound
  | .found cause left =>
    let before := text.take (text.length - left)
    .malformed cause (before.count '\n' + 1)
      ((before.reverse.takeWhile (· != '\n')).length + 1) before.length

def message : ReadError → String
  | .malformed cause line column offset =>
    cause.text ++ ": line " ++ toString line ++ " column " ++ toString column ++
      " (char " ++ toString offset ++ ")"
  | .longInteger digits =>
    "Exceeds the limit (" ++ toString Text.maxIntegerDigits ++
      " digits) for integer string conversion: value has " ++ toString digits ++
      " digits; use sys.set_int_max_str_digits() to increase the limit"
  | .tooDeep compound =>
    "maximum recursion depth exceeded while decoding a JSON " ++ compound.name ++
      " from a unicode string"

end ReadError

def read (text : String) : Except ReadError Value :=
  (readText text.toList).mapError (ReadError.ofFault text.toList)

end HarvestPlan.Json
