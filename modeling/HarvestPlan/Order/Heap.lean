namespace HarvestPlan.Order

abbrev Heap (α : Type) := Array α

namespace Heap

variable {α : Type}

def lessAt (less : α → α → Bool) (heap : Heap α) (i j : Nat) : Bool :=
  match heap[i]?, heap[j]? with
  | some x, some y => less x y
  | _, _ => false

/-- Moves an item up for as long as it is less than the one above it. -/
def rise (less : α → α → Bool) : (fuel place : Nat) → Heap α → Heap α
  | 0, _, heap => heap
  | fuel + 1, place, heap =>
    let above := (place - 1) / 2
    if 0 < place && lessAt less heap place above then
      rise less fuel above (heap.swapIfInBounds place above)
    else heap

def lesserBelow (less : α → α → Bool) (heap : Heap α) (place : Nat) : Nat :=
  let below := 2 * place + 1
  if below + 1 < heap.size && !lessAt less heap below (below + 1) then below + 1 else below

/-- Moves an item down to where nothing is below it, each time past the lesser item, and gives its
    place. -/
def sink (less : α → α → Bool) : (fuel place : Nat) → Heap α → Nat × Heap α
  | 0, place, heap => (place, heap)
  | fuel + 1, place, heap =>
    if place < heap.size / 2 then
      let below := lesserBelow less heap place
      sink less fuel below (heap.swapIfInBounds place below)
    else (place, heap)

def push (less : α → α → Bool) (heap : Heap α) (item : α) : Heap α :=
  rise less (heap.size + 1) heap.size (Array.push heap item)

/-- The item on top, and the heap without it: the last item takes its place, sinks to the bottom
    and rises from there. -/
def pop? (less : α → α → Bool) (heap : Heap α) : Option (α × Heap α) :=
  match heap[0]?, heap.back? with
  | some top, some last =>
    let rest := Array.pop heap
    if rest.isEmpty then some (top, rest)
    else
      let (place, sunk) := sink less rest.size 0 (rest.setIfInBounds 0 last)
      some (top, rise less rest.size place sunk)
  | _, _ => none

end Heap
end HarvestPlan.Order
