import HarvestPlan.Number.Notation

namespace HarvestPlan

inductive Quantity where
  | int (value : Int)
  | flag (value : Bool)
  | float (value : Binary64)
deriving DecidableEq, Repr

inductive Extent where
  | below
  | point (num : Int) (den : Nat)
  | above
  | undefined
deriving DecidableEq, Repr

namespace Extent

def less : Extent → Extent → Bool
  | .undefined, _ | _, .undefined => false
  | .below, .below => false
  | .below, _ => true
  | _, .below => false
  | .above, _ => false
  | .point .., .above => true
  | .point a b, .point c d => a * d < c * b

def same : Extent → Extent → Bool
  | .below, .below | .above, .above => true
  | .point a b, .point c d => a * d = c * b
  | _, _ => false

end Extent

namespace Quantity

def ofBool (b : Bool) : Int := if b then 1 else 0

def extent : Quantity → Extent
  | .int i => .point i 1
  | .flag b => .point (ofBool b) 1
  | .float .nan => .undefined
  | .float (.infinite true) => .below
  | .float (.infinite false) => .above
  | .float (.finite negative mantissa exponent) =>
    let (n, d) := Binary64.magnitude mantissa exponent
    .point (Binary64.withSign negative n) d

def less (a b : Quantity) : Bool := a.extent.less b.extent

def same (a b : Quantity) : Bool := a.extent.same b.extent

def atMost (a b : Quantity) : Bool := a.less b || a.same b

/-- The binary number nearest to the quantity, unless it is an integer beyond the range. -/
def toBinary? : Quantity → Option Binary64
  | .float x => some x
  | .int i => finite? (.ofInt i)
  | .flag b => some (.ofInt (ofBool b))
where
  finite? (x : Binary64) : Option Binary64 := if x.isFinite then some x else none

def toInt? : Quantity → Option Int
  | .int i => some i
  | .flag b => some (ofBool b)
  | .float _ => none

/-- Integers are added exactly; a sum with a binary number is one, and there is none if the other
    operand is an integer beyond the range. -/
def add? (a b : Quantity) : Option Quantity :=
  match a.toInt?, b.toInt? with
  | some i, some j => some (.int (i + j))
  | _, _ => do
    let x ← a.toBinary?
    let y ← b.toBinary?
    pure (.float (x.add y))

/-- The quotient by a divisor that is not zero, rounded down. It is exact for integers; for others
    every step takes the nearest binary number, and there is none for an integer beyond the
    range. -/
def floorQuotient? (a b : Quantity) : Option Quantity :=
  match a.toInt?, b.toInt? with
  | some i, some j => some (.int (Int.fdiv i j))
  | _, _ => do
    let x ← a.toBinary?
    let y ← b.toBinary?
    pure (.float (x.floorQuotient y))

def kilo? : Quantity → Option Quantity
  | .float x => some (.float (x.scaleBy 1 1024))
  | .int i => rounded i
  | .flag b => rounded (ofBool b)
where
  rounded (i : Int) : Option Quantity :=
    let x := Binary64.ofSignedRatio i 1024
    if x.isFinite then some (.float x) else none

def text : Quantity → String
  | .int i => toString i
  | .flag b => if b then "True" else "False"
  | .float x => x.shortText

end Quantity
end HarvestPlan
