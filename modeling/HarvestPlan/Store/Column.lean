import HarvestPlan.Failure
import HarvestPlan.Number.Numeral
import HarvestPlan.Store.Cell

namespace HarvestPlan.Column

open Json (Value)

def least : Int := -twoTo 63

def greatest : Int := twoTo 63 - 1

def integer (n : Int) : Except Failure Int :=
  if least ≤ n ∧ n ≤ greatest then .ok n else .error .beyondRange

def significantDigits : Nat := 15

def half : Extended :=
  let unit := Extended.ofDecimal ⟨1, -10⟩
  let (num, den) := unit.ratio
  .ofBinary (((Decimal.mk 5 (-5)).toBinary false).scaleBy num den)

/-- The significant digits of a magnitude and the exponent of the first. Half a unit of the last one
    is added and the digits after it are dropped, all with a mantissa of 64 bits, so that the last
    digit need not be the nearest. -/
def leading (x : Extended) : List Char × Int :=
  let (scaled, exponent) := x.scientific
  let rounded := scaled.add half
  let (rounded, exponent) :=
    if Extended.ten.atMost rounded then (rounded.mul (.ofDecimal ⟨1, -1⟩), exponent + 1)
    else (rounded, exponent)
  ((rounded.digits significantDigits).flatMap digitsOf, exponent)

/-- Positional from `0.0001` up to below `10 ^ 15`, else with an exponent, and always with a
    point. -/
def magnitudeText (x : Extended) : List Char :=
  let (digits, exponent) := leading x
  let digits := Text.trimEnd (· == '0') digits
  if -4 ≤ exponent ∧ exponent < significantDigits then
    Binary64.positionalText digits (exponent + 1)
  else Binary64.pointed ['0'] (Binary64.scientificText digits exponent)

def floatText : Binary64 → Option String
  | .nan => none
  | .infinite negative => some (String.ofList (signText negative "Inf".toList))
  | .finite negative mantissa exponent =>
    if mantissa = 0 then some "0.0"
    else some (String.ofList (signText negative (magnitudeText ⟨mantissa, exponent⟩)))

/-- What is handed to the tables: a truth value as an integer, the number that is none as null. A
    value with parts cannot be handed over. -/
def bound : Value → Except Failure Value
  | .bool b => .ok (.int (Quantity.ofBool b))
  | .int n => .int <$> integer n
  | .float .nan => .ok .null
  | .arr _ | .obj _ => .error .storeRefuses
  | value => .ok value

def textOf : Value → Option String
  | .str s => some s
  | .int n => some (toString n)
  | .float x => floatText x
  | _ => none

def text (value : Value) : Except Failure (Option String) := textOf <$> bound value

def whole (x : Binary64) : Value :=
  match x.integer? with
  | some n => if least < n ∧ n < greatest then .int n else .float x
  | none => .float x

def numberOf? (s : String) : Option Value := do
  let numeral ← Numeral.ofText? s
  match numeral.integer? with
  | some n => if least ≤ n ∧ n ≤ greatest then pure (.int n) else pure (.float numeral.binary)
  | none => pure (.float numeral.binary)

/-- What an integer column keeps of a value handed over: integers, also where they are written as
    binary numbers or as texts, and anything else as it is. -/
def numeric (value : Value) : Value :=
  match value.text?.bind numberOf?, value with
  | some (.float x), _ | none, .float x => whole x
  | some number, _ => number
  | none, value => value

def key? (value : Value) : Option Int :=
  match numeric value with
  | .int n => some n
  | _ => none

def key (value : Value) : Except Failure (Option Int) := key? <$> bound value

def cell? (value : Value) : Option Cell := Cell.ofValue? (numeric value)

def cell (value : Value) : Except Failure (Option Cell) := cell? <$> bound value

def present (value : Value) : Except Failure Value :=
  if value = .null then .error .storeConstraint else .ok value

def presentCell (value : Value) : Except Failure Cell :=
  match cell? value with
  | some cell => .ok cell
  | none => .error .storeConstraint

def presentKey (value : Value) : Except Failure Int :=
  match key? value with
  | some n => .ok n
  | none => .error .storeConstraint

end HarvestPlan.Column
