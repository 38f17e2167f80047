import HarvestPlan.Number.Extended
import HarvestPlan.Text.Digit
import HarvestPlan.Text.Trim

/-!
Numerals: decimal numbers as they are written, and the binary number that one is read as. As many
digits are gathered as a significand of 63 bits holds, and it is scaled with a mantissa of 64 bits
by a power of ten that was itself rounded, so that the result need not be the nearest number.
-/
namespace HarvestPlan

structure Numeral where
  negative : Bool
  whole : List Char
  fraction : List Char
  exponent : Int
  isInteger : Bool
deriving Repr, DecidableEq

namespace Numeral

def isBlank (c : Char) : Bool := c == ' ' || (9 ≤ c.toNat && c.toNat ≤ 13)

def takeSign : List Char → Bool × List Char
  | '-' :: cs => (true, cs)
  | '+' :: cs => (false, cs)
  | cs => (false, cs)

def takeDigits (cs : List Char) : List Char × List Char :=
  (cs.takeWhile Char.isDigit, cs.dropWhile Char.isDigit)

def takeFraction : List Char → List Char × List Char
  | '.' :: cs => takeDigits cs
  | cs => ([], cs)

def digitValue (c : Char) : Nat := c.toNat - '0'.toNat

def exponentLimit : Nat := 10000

def exponentValue (digits : List Char) : Nat :=
  digits.foldl (fun e c => if e < exponentLimit then 10 * e + digitValue c else exponentLimit) 0

def exponent? : List Char → Option Int
  | [] => some 0
  | c :: cs =>
    let (negative, digits) := takeSign cs
    if (c == 'e' || c == 'E') && !digits.isEmpty && digits.all Char.isDigit then
      some (if negative then -(exponentValue digits : Int) else exponentValue digits)
    else none

/-- The numeral that a text is: digits with an optional sign, point and exponent. -/
def ofText? (text : String) : Option Numeral := do
  let (negative, cs) := takeSign (Text.trim isBlank text.toList)
  let (whole, cs) := takeDigits cs
  let (fraction, rest) := takeFraction cs
  if whole.isEmpty && fraction.isEmpty then failure
  pure ⟨negative, whole, fraction, ← exponent? rest, cs.isEmpty⟩

def integer? (numeral : Numeral) : Option Int :=
  if numeral.isInteger then
    some (Binary64.withSign numeral.negative (Text.decimalValue numeral.whole))
  else none

def fullSignificand : Nat := 922337203685477579

/-- The significand with as many of the digits as it takes, and how many it does not. -/
def gather (significand : Nat) : List Char → Nat × Nat
  | [] => (significand, 0)
  | c :: cs =>
    if significand < fullSignificand then gather (10 * significand + digitValue c) cs
    else (significand, cs.length + 1)

/-- The significand and its power of ten. Digits left over before the point count as places, and
    those after it are dropped. -/
def gathered (numeral : Numeral) : Nat × Int :=
  let (significand, uncounted) := gather 0 numeral.whole
  let (significand, dropped) := gather significand numeral.fraction
  (significand, numeral.exponent + uncounted - ((numeral.fraction.length - dropped : Nat) : Int))

def greatestFactor : Nat := 922337203685477580

def raise (significand : Nat) : (places : Nat) → Nat × Nat
  | 0 => (significand, 0)
  | places + 1 =>
    if greatestFactor ≤ significand then (significand, places + 1)
    else raise (10 * significand) places

def lower (significand : Nat) : (places : Nat) → Nat × Nat
  | 0 => (significand, 0)
  | places + 1 =>
    if significand % 10 ≠ 0 then (significand, places + 1)
    else lower (significand / 10) places

def timesPower (base result : Extended) (exponent : Nat) : Extended :=
  let result := if exponent % 2 = 1 then result.mul base else result
  if exponent / 2 = 0 then result else timesPower (base.mul base) result (exponent / 2)
termination_by exponent

def tenPower (exponent : Nat) : Extended := timesPower .ten (.ofNat 1) exponent

def toBinary (negative : Bool) (x : Extended) : Binary64 :=
  let (num, den) := x.ratio
  .ofRatio negative num den

def longStep : Nat := 308

def beyondReach : Nat := 342

def longStepRatio : Nat × Nat := (Extended.ofDecimal ⟨1, longStep⟩).ratio

def scaledUp (negative : Bool) (significand places : Nat) : Binary64 :=
  let x := Extended.ofNat significand
  if places = 0 then .ofRatio negative significand 1
  else if places < longStep then toBinary negative (x.mul (tenPower places))
  else if places < beyondReach then
    let (num, den) := longStepRatio
    (toBinary negative (x.mul (tenPower (places - longStep)))).scaleBy num den
  else .infinite negative

def scaledDown (negative : Bool) (significand places : Nat) : Binary64 :=
  let x := Extended.ofNat significand
  if places = 0 then .ofRatio negative significand 1
  else if places < longStep then toBinary negative (x.div (tenPower places))
  else if places < beyondReach then
    let (num, den) := longStepRatio
    (toBinary negative (x.div (tenPower (places - longStep)))).scaleBy den num
  else .zero negative

def binary (numeral : Numeral) : Binary64 :=
  let (significand, places) := numeral.gathered
  if significand = 0 then .zero numeral.negative
  else match places with
    | .ofNat places =>
      let (significand, left) := raise significand places
      scaledUp numeral.negative significand left
    | .negSucc places =>
      let (significand, left) := lower significand (places + 1)
      scaledDown numeral.negative significand left

end Numeral
end HarvestPlan
