import HarvestPlan.Member
import HarvestPlan.Failure

namespace HarvestPlan

open Json (Value)

/-- The index is whatever the split is known by. The load is the number of members, unless it has
    been overwritten. -/
structure Split where
  index : Value
  members : Array Member
  load : Value
  totalBytes : Quantity
  finalized : Bool
deriving Repr, DecidableEq

namespace Split

def empty (index : Value) : Split := ⟨index, #[], .int 0, .int 0, false⟩

def size (split : Split) : Nat := split.members.size

def nextLoad : Value → Except Failure Value
  | .int n => .ok (.int (n + 1))
  | load => match load.quantity? with
    | none => .error .wrongKind
    | some load => match load.add? (.int 1) with
      | none => .error .beyondRange
      | some next => .ok (.ofQuantity next)

/-- The member is taken in and counted before its size is looked at, so one without a size stays in
    a split whose total does not know of it. -/
def add (split : Split) (member : Member) : Split × Except Failure Unit :=
  if split.finalized then (split, .error (.splitFinalized split.index))
  else
    let taken := { split with members := split.members.push member }
    match nextLoad split.load with
    | .error failure => (taken, .error failure)
    | .ok load =>
      let counted := { taken with load := load }
      match member.size? with
      | none => (counted, .error .lacksOperation)
      | some size => match split.totalBytes.add? size with
        | none => (counted, .error .beyondRange)
        | some total => ({ counted with totalBytes := total }, .ok ())

def added (split : Split) (member : Member) : Except Failure Split :=
  match split.add member with
  | (grown, .ok ()) => .ok grown
  | (_, .error failure) => .error failure

def finalize (split : Split) : Split := { split with finalized := true }

end Split
end HarvestPlan
