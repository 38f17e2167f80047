import HarvestPlan.Number.Decimal

namespace HarvestPlan

structure Extended where
  mantissa : Nat
  exponent : Int
deriving DecidableEq, Repr

namespace Extended

def zero : Extended := ⟨0, 0⟩

def ratio (x : Extended) : Nat × Nat := Binary64.magnitude x.mantissa x.exponent

def ofRatio (num den : Nat) : Extended :=
  if num = 0 then zero
  else
    let exponent := Binary64.exponentAt 63 num den
    let (n, d) := Binary64.scaled num den exponent
    ⟨nearestQuotient n d, exponent⟩

def ofBinary : Binary64 → Extended
  | .finite _ mantissa exponent => ⟨mantissa, exponent⟩
  | _ => zero

def ofNat (n : Nat) : Extended := ofRatio n 1

def ofDecimal (d : Decimal) : Extended := ofBinary (d.toBinary false)

def atMost (x y : Extended) : Bool :=
  let (a, b) := x.ratio
  let (c, d) := y.ratio
  a * d ≤ c * b

def less (x y : Extended) : Bool := !y.atMost x

def add (x y : Extended) : Extended :=
  let (a, b) := x.ratio
  let (c, d) := y.ratio
  ofRatio (a * d + c * b) (b * d)

def mul (x y : Extended) : Extended :=
  let (a, b) := x.ratio
  let (c, d) := y.ratio
  ofRatio (a * c) (b * d)

def div (x y : Extended) : Extended :=
  let (a, b) := x.ratio
  let (c, d) := y.ratio
  ofRatio (a * d) (b * c)

def floor (x : Extended) : Nat :=
  let (a, b) := x.ratio
  a / b

def fraction (x : Extended) : Extended :=
  let (a, b) := x.ratio
  ofRatio (a % b) b

def ten : Extended := ofNat 10

/-- Multiplies a scale by a power of ten, and counts its places, for as long as that stays at most
    the magnitude. -/
def growScale (x power : Extended) (places : Nat) :
    (fuel : Nat) → Extended × Int → Extended × Int
  | 0, scale => scale
  | fuel + 1, (scale, exponent) =>
    let next := power.mul scale
    if next.atMost x then growScale x power places fuel (next, exponent + places)
    else (scale, exponent)

/-- Multiplies a magnitude by a power of ten, and takes its places off, for as long as it is less
    than the bound. -/
def raise (bound power : Extended) (places : Nat) :
    (fuel : Nat) → Extended × Int → Extended × Int
  | 0, x => x
  | fuel + 1, (x, exponent) =>
    if x.less bound then raise bound power places fuel (x.mul power, exponent - places)
    else (x, exponent)

/-- A magnitude that is not zero as one between 1 and 10, and the decimal exponent taken off. Each
    step rounds, so the result may lie beside the exact one. -/
def scientific (x : Extended) : Extended × Int :=
  let scale := growScale x (ofDecimal ⟨1, 100⟩) 100 4 (ofNat 1, 0)
  let scale := growScale x (ofDecimal ⟨1, 10⟩) 10 12 scale
  let (scale, exponent) := growScale x ten 1 12 scale
  let scaled := raise (ofDecimal ⟨1, -8⟩) (ofDecimal ⟨1, 8⟩) 8 48 (x.div scale, exponent)
  raise (ofNat 1) ten 1 12 scaled

def digits (x : Extended) : (count : Nat) → List Nat
  | 0 => []
  | count + 1 => x.floor :: (x.fraction.mul ten).digits count

end Extended
end HarvestPlan
