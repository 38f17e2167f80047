import HarvestPlan.Json.Shown
import HarvestPlan.Text.Digit

/-!
Message templates. A directive starts with `%`, may name its argument in parentheses, and gives
flags, a width, a precision and a conversion; each directive without a name takes the next
argument. A template that does not fit its arguments has no text.
-/
namespace HarvestPlan.Template

open Json (Value Fields)

inductive Extent where
  | given (n : Nat)
  | fromArgument
deriving Repr, DecidableEq

structure Flags where
  left : Bool
  plus : Bool
  blank : Bool
  alternate : Bool
  zeros : Bool
deriving Repr, DecidableEq

structure Directive where
  key : Option String
  flags : Flags
  width : Option Extent
  precision : Option Extent
  conversion : Char
deriving Repr, DecidableEq

inductive Piece where
  | literal (c : Char)
  | directive (directive : Directive)
deriving Repr, DecidableEq

/-- A key up to the parenthesis that closes it, and what follows; parentheses may nest. -/
def readKey? : (depth : Nat) → List Char → Option (List Char × List Char)
  | _, [] => none
  | depth, c :: cs =>
    if c = ')' then
      match depth with
      | 0 => some ([], cs)
      | depth + 1 => (readKey? depth cs).map fun (key, rest) => (c :: key, rest)
    else
      let depth := if c = '(' then depth + 1 else depth
      (readKey? depth cs).map fun (key, rest) => (c :: key, rest)

def readFlags (flags : Flags) : List Char → Flags × List Char
  | '-' :: cs => readFlags { flags with left := true } cs
  | '+' :: cs => readFlags { flags with plus := true } cs
  | ' ' :: cs => readFlags { flags with blank := true } cs
  | '#' :: cs => readFlags { flags with alternate := true } cs
  | '0' :: cs => readFlags { flags with zeros := true } cs
  | cs => (flags, cs)

def readWidth : List Char → Option Extent × List Char
  | '*' :: cs => (some .fromArgument, cs)
  | cs => match cs.takeWhile Char.isDigit with
    | [] => (none, cs)
    | digits => (some (.given (Text.decimalValue digits)), cs.dropWhile Char.isDigit)

def readPrecision : List Char → Option Extent × List Char
  | '.' :: cs =>
    let (extent, rest) := readWidth cs
    (some (extent.getD (.given 0)), rest)
  | cs => (none, cs)

def skipLength : List Char → List Char
  | [] => []
  | c :: cs => if c = 'h' ∨ c = 'l' ∨ c = 'L' then cs else c :: cs

def readOptionalKey? : List Char → Option (Option String × List Char)
  | '(' :: cs => (readKey? 0 cs).map fun (key, rest) => (some (String.ofList key), rest)
  | cs => some (none, cs)

def readDirective? (cs : List Char) : Option (Directive × List Char) := do
  let (key, cs) ← readOptionalKey? cs
  let (flags, cs) := readFlags ⟨false, false, false, false, false⟩ cs
  let (width, cs) := readWidth cs
  let (precision, cs) := readPrecision cs
  match skipLength cs with
  | [] => none
  | conversion :: rest => some (⟨key, flags, width, precision, conversion⟩, rest)

def readPieces? : (steps : Nat) → List Char → Option (List Piece)
  | _, [] => some []
  | 0, _ :: _ => none
  | steps + 1, '%' :: '%' :: cs => do
    let pieces ← readPieces? steps cs
    pure (.literal '%' :: pieces)
  | steps + 1, '%' :: cs => do
    let (directive, rest) ← readDirective? cs
    let pieces ← readPieces? steps rest
    pure (.directive directive :: pieces)
  | steps + 1, c :: cs => do
    let pieces ← readPieces? steps cs
    pure (.literal c :: pieces)

def read? (cs : List Char) : Option (List Piece) := readPieces? cs.length cs

structure Converted where
  isNumber : Bool
  mark : List Char
  body : List Char

def upper (cs : List Char) : List Char := cs.map Char.toUpper

def filled (precision : Option Nat) (digits : List Char) : List Char :=
  repeated (precision.getD 0 - digits.length) '0' ++ digits

def integerDigits (base : Nat) (n : Nat) : List Char := Nat.toDigits base n

def ofInteger (mark : List Char) (base : Nat) (precision : Option Nat) (n : Int) : Converted where
  isNumber := true
  mark := mark
  body := signText (n < 0) (filled precision (integerDigits base n.natAbs))

def truncated? : Value → Option Int
  | .int n => some n
  | .bool b => some (Quantity.ofBool b)
  | .float x => x.truncate?
  | _ => none

def integer? : Value → Option Int
  | .int n => some n
  | .bool b => some (Quantity.ofBool b)
  | _ => none

def places : Nat := 6

/-- The alternate form of a number always has a point and keeps its zeros. -/
def floatDigits (style : Char) (alternate : Bool) (precision num den : Nat) : List Char :=
  let digits :=
    if style = 'e' then Binary64.exponentDigits precision num den
    else if style = 'f' then Binary64.fixedDigits precision num den
    else Binary64.generalDigits alternate precision num den
  if alternate then Binary64.pointed [] digits else digits

def ofFloat (style : Char) (alternate : Bool) (precision : Option Nat) (x : Binary64) :
    Converted where
  isNumber := true
  mark := []
  body := (x.textWith (floatDigits style alternate (precision.getD places))).toList

def character? : Value → Option Char
  | .str s => match s.toList with
    | [c] => some c
    | _ => none
  | value => do
    let n ← integer? value
    let code := n.toNat
    if 0 ≤ n ∧ (code < 0xd800 ∨ (0xe000 ≤ code ∧ code ≤ 0x10ffff)) then some (Char.ofNat code)
    else none

def ofText (precision : Option Nat) (s : String) : Converted :=
  let cs := s.toList
  ⟨false, [], match precision with
    | some n => cs.take n
    | none => cs⟩

def baseMark (alternate : Bool) (letter : Char) : List Char :=
  if alternate then ['0', letter] else []

def convert? (conversion : Char) (alternate : Bool) (precision : Option Nat) (value : Value) :
    Option Converted :=
  let float (style : Char) : Option Converted := do
    let x ← value.quantity? >>= Quantity.toBinary?
    pure (ofFloat style alternate precision x)
  let raised (converted : Converted) : Converted :=
    { converted with mark := upper converted.mark, body := upper converted.body }
  match conversion with
  | 's' => some (ofText precision value.text)
  | 'r' => some (ofText precision value.shown)
  | 'a' => some (ofText precision (Text.asciiOnly value.shown))
  | 'c' => (character? value).map fun c => ⟨false, [], [c]⟩
  | 'd' | 'i' | 'u' => (truncated? value).map (ofInteger [] 10 precision)
  | 'o' => (integer? value).map (ofInteger (baseMark alternate 'o') 8 precision)
  | 'x' => (integer? value).map (ofInteger (baseMark alternate 'x') 16 precision)
  | 'X' => (integer? value).map fun n => raised (ofInteger (baseMark alternate 'x') 16 precision n)
  | 'e' | 'f' | 'g' => float conversion
  | 'E' | 'F' | 'G' => (float conversion.toLower).map raised
  | _ => none

def signOf (flags : Flags) : List Char → List Char × List Char
  | '-' :: digits => (['-'], digits)
  | digits => (if flags.plus then ['+'] else if flags.blank then [' '] else [], digits)

/-- Filled up to the width: with blanks on the right if `left`, with zeros after the sign of a
    number if `zeros`, else with blanks on the left. -/
def layOut (flags : Flags) (width : Nat) (converted : Converted) : List Char :=
  let (sign, digits) :=
    if converted.isNumber then signOf flags converted.body else ([], converted.body)
  let front := sign ++ converted.mark
  let missing := width - (front.length + digits.length)
  if flags.left then front ++ digits ++ repeated missing ' '
  else if flags.zeros && converted.isNumber then front ++ repeated missing '0' ++ digits
  else repeated missing ' ' ++ front ++ digits

/-- The arguments that are left. Named arguments are looked up; a value that was looked up is the
    only one left for what follows. -/
structure Supply where
  named : Option Fields
  pending : List Value

def Supply.next? (supply : Supply) : Option (Value × Supply) :=
  match supply.pending with
  | [] => none
  | value :: rest => some (value, { supply with pending := rest })

def Supply.select? (supply : Supply) (key : Option String) : Option Supply :=
  match key with
  | none => some supply
  | some name => do
    let fields ← supply.named
    let value ← fields.find? name
    pure { supply with pending := [value] }

/-- A text has no room for a greater width or precision. -/
def greatestExtent : Nat := twoTo 31 - 1

def bounded (n : Int) : Option Int := if n.natAbs ≤ greatestExtent then some n else none

def extentOf? (supply : Supply) : Option Extent → Option (Option Int × Supply)
  | none => some (none, supply)
  | some (.given n) => (bounded n).map fun n => (some n, supply)
  | some .fromArgument => do
    let (value, rest) ← supply.next?
    let n ← integer? value >>= bounded
    pure (some n, rest)

def widened (flags : Flags) : Option Int → Flags × Nat
  | none => (flags, 0)
  | some n => if n < 0 then ({ flags with left := true }, n.natAbs) else (flags, n.natAbs)

def fillDirective? (supply : Supply) (d : Directive) : Option (List Char × Supply) := do
  let supply ← supply.select? d.key
  let (width, supply) ← extentOf? supply d.width
  let (precision, supply) ← extentOf? supply d.precision
  let (value, supply) ← supply.next?
  let (flags, width) := widened d.flags width
  let converted ← convert? d.conversion flags.alternate (precision.map (·.toNat)) value
  pure (layOut flags width converted, supply)

def fillPieces? : Supply → List Piece → Option (List Char × Supply)
  | supply, [] => some ([], supply)
  | supply, .literal c :: pieces => do
    let (rest, left) ← fillPieces? supply pieces
    pure (c :: rest, left)
  | supply, .directive d :: pieces => do
    let (text, supply) ← fillDirective? supply d
    let (rest, left) ← fillPieces? supply pieces
    pure (text ++ rest, left)

/-- Arguments in order, arguments by name, or one alone. An object by itself is an argument too. -/
def Supply.ofValue : Value → Supply
  | .arr items => ⟨none, items⟩
  | .obj fields => ⟨some fields, [.obj fields]⟩
  | value => ⟨none, [value]⟩

/-- The text of a template with its arguments. No argument may be left over unless they have
    names. -/
def fill? (template : String) (arguments : Value) : Option String := do
  let pieces ← read? template.toList
  let (text, left) ← fillPieces? (.ofValue arguments) pieces
  if left.pending.isEmpty || left.named.isSome then pure (String.ofList text) else none

end HarvestPlan.Template
