/-!
Searches in a sequence that is taken to be sorted: outwards from a place by steps that double, and
then by halving. A comparison that is no order still leads to one place.
-/
namespace HarvestPlan.Order

/-- Looks further away by steps that double, as long as a distance within the limit is passed, and
    gives the last distance that was and the first that was not. -/
def spread (passes : Nat → Bool) (limit : Nat) : (fuel passed next : Nat) → Nat × Nat
  | 0, passed, next => (passed, min next limit)
  | fuel + 1, passed, next =>
    if next < limit && passes next then spread passes limit fuel next (2 * next + 1)
    else (passed, min next limit)

def bisect (passes : Nat → Bool) : (fuel low high : Nat) → Nat
  | 0, _, high => high
  | fuel + 1, low, high =>
    if low < high then
      let middle := low + (high - low) / 2
      if passes middle then bisect passes fuel (middle + 1) high
      else bisect passes fuel low middle
    else high

/-- The place at which what is passed ends, looked for from a hint on. -/
def gallop (passes : Nat → Bool) (size hint : Nat) : Nat :=
  if passes hint then
    let (passed, next) := spread (fun d => passes (hint + d)) (size - hint) size 0 1
    bisect passes size (hint + passed + 1) (hint + next)
  else
    let (passed, next) := spread (fun d => !passes (hint - d)) (hint + 1) size 0 1
    bisect passes size (hint + 1 - next) (hint - passed)

variable {α : Type}

def passesAt (items : Array α) (passes : α → Bool) (i : Nat) : Bool := items[i]?.any passes

def countLess (less : α → α → Bool) (key : α) (items : List α) (hint : Nat) : Nat :=
  gallop (passesAt items.toArray fun item => less item key) items.length hint

def countAtMost (less : α → α → Bool) (key : α) (items : List α) (hint : Nat) : Nat :=
  gallop (passesAt items.toArray fun item => !less key item) items.length hint

end HarvestPlan.Order
