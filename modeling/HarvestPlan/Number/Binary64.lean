/-!
Binary floating-point numbers of 64 bits, held exactly: a finite one is a sign, a mantissa and a
power of two. Every operation here computes the exact rational result and then takes the nearest
representable number, a tie going to the even mantissa.
-/
namespace HarvestPlan

def twoTo (n : Nat) : Nat := Nat.pow 2 n

/-- A finite number in canonical form has a mantissa below `2 ^ 53`, and one below `2 ^ 52` only
    together with the least exponent, `-1074`. -/
inductive Binary64 where
  | nan
  | infinite (negative : Bool)
  | finite (negative : Bool) (mantissa : Nat) (exponent : Int)
deriving DecidableEq, Repr

/-- The integer nearest to a quotient; a half goes to the even neighbour. -/
def nearestQuotient (num den : Nat) : Nat :=
  let quotient := num / den
  let twice := 2 * (num % den)
  if twice < den ∨ (twice = den ∧ quotient % 2 = 0) then quotient else quotient + 1

namespace Binary64

def leastExponent : Int := -1074

def greatestExponent : Int := 971

def zero (negative : Bool) : Binary64 := .finite negative 0 leastExponent

def scaled (num den : Nat) (exponent : Int) : Nat × Nat :=
  (num * twoTo (-exponent).toNat, den * twoTo exponent.toNat)

def exponentAt (bits num den : Nat) : Int :=
  let guess : Int := (Nat.log2 num : Int) - Nat.log2 den - bits
  let (n, d) := scaled num den guess
  if n < d * twoTo bits then guess - 1 else guess

def exponentFor (num den : Nat) : Int := max (exponentAt 52 num den) leastExponent

def ofRatio (negative : Bool) (num den : Nat) : Binary64 :=
  if num = 0 then zero negative
  else
    let exponent := exponentFor num den
    let (n, d) := scaled num den exponent
    let mantissa := nearestQuotient n d
    let (mantissa, exponent) :=
      if mantissa = twoTo 53 then (twoTo 52, exponent + 1) else (mantissa, exponent)
    if greatestExponent < exponent then .infinite negative
    else .finite negative mantissa exponent

def ofSignedRatio (num : Int) (den : Nat) : Binary64 :=
  ofRatio (num < 0) num.natAbs den

def ofInt (i : Int) : Binary64 := ofSignedRatio i 1

def magnitude (mantissa : Nat) (exponent : Int) : Nat × Nat :=
  (mantissa * twoTo exponent.toNat, twoTo (-exponent).toNat)

def withSign (negative : Bool) (n : Nat) : Int := if negative then -(n : Int) else n

def ratio? : Binary64 → Option (Int × Nat)
  | .finite negative mantissa exponent =>
    let (n, d) := magnitude mantissa exponent
    some (withSign negative n, d)
  | _ => none

def isFinite : Binary64 → Bool
  | .finite .. => true
  | _ => false

def negate : Binary64 → Binary64
  | .nan => .nan
  | .infinite negative => .infinite (!negative)
  | .finite negative mantissa exponent => .finite (!negative) mantissa exponent

/-- Two zeros keep their sign only if they agree on it; an exact sum of zero is positive. -/
def add : Binary64 → Binary64 → Binary64
  | .nan, _ | _, .nan => .nan
  | .infinite a, .infinite b => if a = b then .infinite a else .nan
  | .infinite a, .finite .. | .finite .., .infinite a => .infinite a
  | .finite s m e, .finite t k f =>
    if m = 0 ∧ k = 0 then zero (s && t)
    else
      let (a, b) := magnitude m e
      let (c, d) := magnitude k f
      ofSignedRatio (withSign s a * d + withSign t c * b) (b * d)

def scaleBy (num den : Nat) : Binary64 → Binary64
  | .nan => .nan
  | .infinite negative => .infinite negative
  | .finite negative mantissa exponent =>
    let (n, d) := magnitude mantissa exponent
    ofRatio negative (n * num) (d * den)

def floor : Binary64 → Binary64
  | .finite negative mantissa exponent =>
    let (n, d) := magnitude mantissa exponent
    ofSignedRatio (withSign negative n / (d : Int)) 1
  | x => x

/-- The quotient of two finite numbers, of which the divisor is not zero, rounded down by steps
    that each take the nearest number: the remainder with the sign of the dividend is taken off,
    what is left is divided, and the quotient goes to an integer next to it. -/
def floorQuotientFinite (x : Binary64) (s t : Bool) (a b c d : Nat) : Binary64 :=
  let whole := a * d / (b * c)
  let remainder := ofRatio s (a * d - whole * (c * b)) (b * d)
  let exact := (x.add remainder.negate).scaleBy d c
  let divided := if t then exact.negate else exact
  let below := a * d - whole * (c * b) ≠ 0 && s != t
  let quotient := if below then divided.add (ofInt (-1)) else divided
  match quotient with
  | .finite _ 0 _ => zero (s != t)
  | quotient =>
    let low := quotient.floor
    match (quotient.add low.negate).ratio? with
    | some (n, k) => if (k : Int) < 2 * n then low.add (ofInt 1) else low
    | none => low

/-- The quotient rounded down. A dividend that is not finite has none, and by an infinite divisor it
    lies next to zero. -/
def floorQuotient (x y : Binary64) : Binary64 :=
  match x, y with
  | .finite s m e, .finite t k f =>
    let (a, b) := magnitude m e
    let (c, d) := magnitude k f
    floorQuotientFinite x s t a b c d
  | .finite s m _, .infinite t =>
    if m ≠ 0 ∧ s ≠ t then ofInt (-1) else zero (s != t)
  | _, _ => .nan

def truncate? (x : Binary64) : Option Int :=
  x.ratio?.map fun (n, d) => Int.tdiv n d

def integer? (x : Binary64) : Option Int :=
  x.ratio?.bind fun (n, d) => if n % (d : Int) = 0 then some (n / (d : Int)) else none

end Binary64
end HarvestPlan
