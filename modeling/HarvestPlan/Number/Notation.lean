import HarvestPlan.Number.Decimal
import HarvestPlan.Text.Trim

namespace HarvestPlan

def repeated (n : Nat) (c : Char) : List Char := List.replicate n c

def digitsOf (n : Nat) : List Char := Nat.toDigits 10 n

def paddedDigits (width n : Nat) : List Char :=
  let ds := digitsOf n
  repeated (width - ds.length) '0' ++ ds

def exponentText (exponent : Int) : List Char :=
  (if exponent < 0 then '-' else '+') :: paddedDigits 2 exponent.natAbs

def signText (negative : Bool) (cs : List Char) : List Char :=
  if negative then '-' :: cs else cs

namespace Binary64

def specialText (negative : Bool) : List Char := signText negative "inf".toList

/-- `digits` with the point after the first `whole` of them, filled with zeros on either side. A
    text without a fraction ends in `.0`. -/
def positionalText (digits : List Char) (whole : Int) : List Char :=
  if whole ≤ 0 then "0.".toList ++ repeated (-whole).toNat '0' ++ digits
  else if digits.length ≤ whole.toNat then
    digits ++ repeated (whole.toNat - digits.length) '0' ++ ".0".toList
  else digits.take whole.toNat ++ '.' :: digits.drop whole.toNat

def scientificText (digits : List Char) (exponent : Int) : List Char :=
  let mantissa := match digits with
    | first :: second :: rest => first :: '.' :: second :: rest
    | ds => ds
  mantissa ++ 'e' :: exponentText exponent

/-- The fewest digits that read back, written without an exponent from `0.0001` up to below
    `10 ^ 16`. -/
def shortText : Binary64 → String
  | .nan => "nan"
  | .infinite negative => String.ofList (specialText negative)
  | .finite negative mantissa exponent =>
    if mantissa = 0 then String.ofList (signText negative "0.0".toList)
    else
      let d := Decimal.shortest mantissa exponent
      let all := digitsOf d.digits
      let whole := (all.length : Int) + d.exponent
      let digits := Text.trimEnd (· == '0') all
      String.ofList <| signText negative <|
        if -4 < whole ∧ whole ≤ 16 then positionalText digits whole
        else scientificText digits (whole - 1)

def fixedDigits (places : Nat) (num den : Nat) : List Char :=
  let ds := paddedDigits (places + 1) (nearestQuotient (num * tenTo places) den)
  let whole := ds.length - places
  if places = 0 then ds else ds.take whole ++ '.' :: ds.drop whole

def leadingDigits (places : Nat) (num den : Nat) : List Char × Int :=
  if num = 0 then (repeated (places + 1) '0', 0)
  else
    let lead := Decimal.leadingPlace num den
    let ds := digitsOf (Decimal.roundAt num den (lead - places)).digits
    if places + 1 < ds.length then (ds.take (places + 1), lead + 1) else (ds, lead)

def exponentDigits (places : Nat) (num den : Nat) : List Char :=
  let (ds, exponent) := leadingDigits places num den
  scientificText ds exponent

/-- At most `precision` digits, without trailing zeros unless `keepZeros`: an exponent is written
    below `10 ^ -4` and from `10 ^ precision` on. -/
def generalDigits (keepZeros : Bool) (precision : Nat) (num den : Nat) : List Char :=
  let precision := max precision 1
  let (ds, exponent) := leadingDigits (precision - 1) num den
  let trim (cs : List Char) : List Char :=
    if keepZeros || !cs.contains '.' then cs
    else Text.trimEnd (· == '.') (Text.trimEnd (· == '0') cs)
  if -4 ≤ exponent ∧ exponent < precision then
    trim (fixedDigits (precision - 1 - exponent).toNat num den)
  else
    let mantissa := match ds with
      | first :: second :: rest => first :: '.' :: second :: rest
      | short => short
    trim mantissa ++ 'e' :: exponentText exponent

def pointed (filler digits : List Char) : List Char :=
  let mantissa := digits.takeWhile (· ≠ 'e')
  if mantissa.contains '.' then digits
  else mantissa ++ '.' :: filler ++ digits.dropWhile (· ≠ 'e')

def textWith (digits : (num den : Nat) → List Char) : Binary64 → String
  | .nan => "nan"
  | .infinite negative => String.ofList (specialText negative)
  | .finite negative mantissa exponent =>
    let (num, den) := magnitude mantissa exponent
    String.ofList (signText negative (digits num den))

def fixedText (places : Nat) (x : Binary64) : String := x.textWith (fixedDigits places)

end Binary64
end HarvestPlan
