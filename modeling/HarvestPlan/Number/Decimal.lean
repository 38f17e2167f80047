import HarvestPlan.Number.Binary64

namespace HarvestPlan

def tenTo (n : Nat) : Nat := Nat.pow 10 n

structure Decimal where
  digits : Nat
  exponent : Int
deriving DecidableEq, Repr

def digitCount (n : Nat) : Nat := (Nat.toDigits 10 n).length

namespace Decimal

def ratio (d : Decimal) : Nat × Nat :=
  (d.digits * tenTo d.exponent.toNat, tenTo (-d.exponent).toNat)

/-- The nearest number. A decimal of more than 310 places before the point is beyond the range,
    one with more than 330 zeros after it is nearest to zero, and neither power is computed. -/
def toBinary (negative : Bool) (d : Decimal) : Binary64 :=
  if d.digits = 0 then .zero negative
  else
    let place := (digitCount d.digits : Int) + d.exponent
    if 310 < place then .infinite negative
    else if place < -330 then .zero negative
    else
      let (num, den) := d.ratio
      .ofRatio negative num den

def leadingPlace (num den : Nat) : Int :=
  let guess : Int := (digitCount num : Int) - digitCount den
  if num * tenTo (-guess).toNat < den * tenTo guess.toNat then guess - 1 else guess

def unitsAt (num den : Nat) (place : Int) : Nat × Nat :=
  (num * tenTo (-place).toNat, den * tenTo place.toNat)

def roundAt (num den : Nat) (place : Int) : Decimal :=
  let (n, d) := unitsAt num den place
  ⟨nearestQuotient n d, place⟩

/-- The neighbour of `num / den` on the decimal grid of `place` that reads back as `mantissa` and
    `exponent`; the nearer one where both do. -/
def readsBackAt? (mantissa : Nat) (exponent : Int) (num den : Nat) (place : Int) :
    Option Decimal :=
  let (n, d) := unitsAt num den place
  let below : Decimal := ⟨n / d, place⟩
  let above : Decimal := ⟨n / d + 1, place⟩
  let same (c : Decimal) : Bool :=
    c.digits ≠ 0 && c.toBinary false = .finite false mantissa exponent
  match same below, same above with
  | true, true => some (roundAt num den place)
  | true, false => some below
  | false, true => some above
  | false, false => none

/-- The first of the grids with `count`, `count + 1`, … digits that has a decimal which reads
    back; 17 digits always do. -/
def shortestFrom (mantissa : Nat) (exponent : Int) (num den : Nat) (lead : Int) :
    (fuel count : Nat) → Decimal
  | 0, count => roundAt num den (lead - count)
  | fuel + 1, count =>
    (readsBackAt? mantissa exponent num den (lead - count)).getD
      (shortestFrom mantissa exponent num den lead fuel (count + 1))

/-- The decimal of fewest digits that reads back as the finite number, and of those the nearest. -/
def shortest (mantissa : Nat) (exponent : Int) : Decimal :=
  if mantissa = 0 then ⟨0, 0⟩
  else
    let (num, den) := Binary64.magnitude mantissa exponent
    shortestFrom mantissa exponent num den (leadingPlace num den) 17 0

end Decimal
end HarvestPlan
