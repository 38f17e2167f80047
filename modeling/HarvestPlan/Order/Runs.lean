import HarvestPlan.Order.Merge

/-!
Sorting by runs. What is in order already is found from the front, short runs are filled up by
insertion, and runs are merged in pairs chosen by where they lie. Under an order this is the stable
sort; under a comparison that is no order it still gives all items, in one arrangement.
-/
namespace HarvestPlan.Order

variable {α : Type}

def runLength (less : α → α → Bool) (descending : Bool) : α → List α → Nat
  | _, [] => 0
  | x, y :: rest =>
    if less y x = descending then runLength less descending y rest + 1 else 0

/-- The items at the front that are in order, turned round if each is less than the one before
    it, and the others. -/
def firstRun (less : α → α → Bool) (items : List α) : List α × List α :=
  match items with
  | x :: y :: rest =>
    let descending := less y x
    let count := runLength less descending y rest + 2
    let run := items.take count
    (if descending then run.reverse else run, items.drop count)
  | items => (items, [])

def insertInto (less : α → α → Bool) (run : List α) (item : α) : List α :=
  let place := bisect (passesAt run.toArray fun other => !less item other) run.length 0 run.length
  run.take place ++ item :: run.drop place

def manyItems : Nat := 64

/-- The length of the runs to merge, so that there are about a power of two of them. -/
def leastRun (count : Nat) : Nat :=
  if count < manyItems then count
  else go count 0 count
where
  go : (fuel odd count : Nat) → Nat
    | 0, odd, count => count + odd
    | fuel + 1, odd, count =>
      if count < manyItems then count + odd else go fuel (max odd (count % 2)) (count / 2)

/-- A run, and how deep the boundary after it lies when the whole is halved again and again. -/
structure Pending (α : Type) where
  run : List α
  depth : Nat

/-- The first digit in which two fractions of the whole differ; both are given doubled, over the
    length of the whole. -/
def boundaryDepth (size : Nat) : (fuel a b depth : Nat) → Nat
  | 0, _, _, depth => depth
  | fuel + 1, a, b, depth =>
    if size ≤ a then boundaryDepth size fuel (2 * (a - size)) (2 * (b - size)) (depth + 1)
    else if size ≤ b then depth + 1
    else boundaryDepth size fuel (2 * a) (2 * b) (depth + 1)

/-- Runs that wait to be merged, the last one first, and how many wins in a row count as often. -/
structure Waiting (α : Type) where
  runs : List (Pending α)
  often : Nat

namespace Waiting

def start : Waiting α := ⟨[], shortStretch⟩

/-- Merges the last run into the one before it for as long as that is bounded deeper. -/
def collapse (less : α → α → Bool) (depth often : Nat) : List (Pending α) → Waiting α
  | last :: before :: rest =>
    if depth < before.depth then
      let (merged, often) := merge less often before.run last.run
      collapse less depth often (⟨merged, before.depth⟩ :: rest)
    else ⟨last :: before :: rest, often⟩
  | runs => ⟨runs, often⟩
termination_by runs => runs.length

def push (less : α → α → Bool) (size : Nat) (waiting : Waiting α) (run : List α) : Waiting α :=
  match waiting.runs with
  | [] => { waiting with runs := [⟨run, 0⟩] }
  | last :: rest =>
    let start := rest.foldl (fun n pending => n + pending.run.length) 0
    let a := 2 * start + last.run.length
    let depth := boundaryDepth size (2 * size + 2) a (a + last.run.length + run.length) 0
    let collapsed := collapse less depth waiting.often waiting.runs
    match collapsed.runs with
    | [] => { collapsed with runs := [⟨run, 0⟩] }
    | last :: rest => { collapsed with runs := ⟨run, 0⟩ :: { last with depth := depth } :: rest }

/-- Merges all runs, the shorter of two neighbours of a run first. -/
def collapseAll (less : α → α → Bool) (often : Nat) : (runs : List (Pending α)) → List α
  | [] => []
  | [last] => last.run
  | [last, before] => (merge less often before.run last.run).1
  | last :: before :: third :: rest =>
    if third.run.length < last.run.length then
      let (merged, often) := merge less often third.run before.run
      collapseAll less often (last :: ⟨merged, third.depth⟩ :: rest)
    else
      let (merged, often) := merge less often before.run last.run
      collapseAll less often (⟨merged, before.depth⟩ :: third :: rest)
termination_by runs => runs.length

end Waiting

def pushRuns (less : α → α → Bool) (size least : Nat) :
    (fuel : Nat) → List α → Waiting α → Waiting α
  | 0, _, waiting => waiting
  | _ + 1, [], waiting => waiting
  | fuel + 1, items, waiting =>
    let (run, rest) := firstRun less items
    let missing := least - run.length
    let filled := (rest.take missing).foldl (insertInto less) run
    pushRuns less size least fuel (rest.drop missing) (waiting.push less size filled)

def sortRuns (less : α → α → Bool) (items : List α) : List α :=
  let size := items.length
  let waiting := pushRuns less size (leastRun size) size items .start
  Waiting.collapseAll less waiting.often waiting.runs

end HarvestPlan.Order
