import HarvestPlan.Order.Gallop

/-!
Merging two runs. Items are taken one by one until one run wins so often in a row that it pays to
take whole stretches. Equal items keep their order, and a comparison that is no order still merges
all items, in an order that depends on which of them were compared.
-/
namespace HarvestPlan.Order

inductive Pace where
  | single (leftWins rightWins : Nat)
  | stretches
deriving Repr

/-- What is left of two runs, what is merged, and how many wins in a row count as often. -/
structure Merging (α : Type) where
  left : List α
  right : List α
  merged : List α
  often : Nat

inductive Step (α : Type) where
  | done (merged : List α) (often : Nat)
  | more (pace : Pace) (merging : Merging α)

def shortStretch : Nat := 7

def Merging.afterWins {α : Type} (m : Merging α) (wins : Nat) (pace : Pace) : Step α :=
  if m.often ≤ wins then .more .stretches { m with often := m.often + 1 } else .more pace m

def Merging.afterStretches {α : Type} (m : Merging α) (left right : Nat) : Step α :=
  if shortStretch ≤ left ∨ shortStretch ≤ right then .more .stretches m
  else .more (.single 0 0) { m with often := m.often + 1 }

/-- Steps are taken until all is merged; the fuel bounds their number. -/
def steps {α : Type} (step : Pace → Merging α → Step α) :
    (fuel : Nat) → Pace → Merging α → List α × Nat
  | 0, _, m => (m.merged, m.often)
  | fuel + 1, pace, m => match step pace m with
    | .done merged often => (merged, often)
    | .more pace m => steps step fuel pace m

variable {α : Type}

namespace Front

def rest (m : Merging α) : Step α := .done (m.merged.reverse ++ m.left ++ m.right) m.often

def crossed (m : Merging α) : Step α := .done (m.merged.reverse ++ m.right ++ m.left) m.often

def single (less : α → α → Bool) (leftWins rightWins : Nat) (m : Merging α) : Step α :=
  match m.left, m.right with
  | x :: left, y :: right =>
    if less y x then
      let m := { m with right := right, merged := y :: m.merged }
      if right.isEmpty then rest m else m.afterWins (rightWins + 1) (.single 0 (rightWins + 1))
    else
      let m := { m with left := left, merged := x :: m.merged }
      if left.length = 1 then crossed m else m.afterWins (leftWins + 1) (.single (leftWins + 1) 0)
  | _, _ => rest m

/-- A stretch of the right run, of items less than the next of the left one, and that one. -/
def rightStretch (less : α → α → Bool) (leftCount : Nat) (m : Merging α) : Step α :=
  match m.left with
  | [] => rest m
  | x :: left =>
    let count := countLess less x m.right 0
    let merged := (m.right.take count).reverse ++ m.merged
    let m := { m with right := m.right.drop count, merged := merged }
    if m.right.isEmpty then rest m
    else
      let m := { m with left := left, merged := x :: m.merged }
      if left.length = 1 then crossed m else m.afterStretches leftCount count

/-- A stretch of the left run, of items that the next of the right one is not less than, and that
    one; then the other way round. -/
def stretches (less : α → α → Bool) (m : Merging α) : Step α :=
  match m.right with
  | [] => rest m
  | y :: right =>
    let count := countAtMost less y m.left 0
    let merged := (m.left.take count).reverse ++ m.merged
    let m := { m with left := m.left.drop count, merged := merged }
    if m.left.length = 1 then crossed m
    else if m.left.isEmpty then rest m
    else
      let m := { m with right := right, merged := y :: m.merged }
      if right.isEmpty then rest m else rightStretch less count m

def step (less : α → α → Bool) (pace : Pace) (m : Merging α) : Step α :=
  match pace with
  | .single leftWins rightWins => single less leftWins rightWins m
  | .stretches => stretches less { m with often := max 1 (m.often - 1) }

end Front

namespace Back

def rest (m : Merging α) : Step α :=
  .done (m.left.reverse ++ m.right.reverse ++ m.merged) m.often

def crossed (m : Merging α) : Step α :=
  .done (m.right.reverse ++ m.left.reverse ++ m.merged) m.often

def single (less : α → α → Bool) (leftWins rightWins : Nat) (m : Merging α) : Step α :=
  match m.left, m.right with
  | x :: left, y :: right =>
    if less y x then
      let m := { m with left := left, merged := x :: m.merged }
      if left.isEmpty then rest m else m.afterWins (leftWins + 1) (.single (leftWins + 1) 0)
    else
      let m := { m with right := right, merged := y :: m.merged }
      if right.length = 1 then crossed m
      else m.afterWins (rightWins + 1) (.single 0 (rightWins + 1))
  | _, _ => rest m

/-- A stretch of the right run, of items not less than the next of the left one, and that one. -/
def rightStretch (less : α → α → Bool) (leftCount : Nat) (m : Merging α) : Step α :=
  match m.left with
  | [] => rest m
  | x :: left =>
    let size := m.right.length
    let count := size - countLess less x m.right.reverse (size - 1)
    let merged := (m.right.take count).reverse ++ m.merged
    let m := { m with right := m.right.drop count, merged := merged }
    if m.right.length = 1 then crossed m
    else if m.right.isEmpty then rest m
    else
      let m := { m with left := left, merged := x :: m.merged }
      if left.isEmpty then rest m else m.afterStretches leftCount count

/-- A stretch of the left run, of items that the next of the right one is less than, and that one;
    then the other way round. -/
def stretches (less : α → α → Bool) (m : Merging α) : Step α :=
  match m.right with
  | [] => rest m
  | y :: right =>
    let size := m.left.length
    let count := size - countAtMost less y m.left.reverse (size - 1)
    let merged := (m.left.take count).reverse ++ m.merged
    let m := { m with left := m.left.drop count, merged := merged }
    if m.left.isEmpty then rest m
    else
      let m := { m with right := right, merged := y :: m.merged }
      if right.length = 1 then crossed m else rightStretch less count m

def step (less : α → α → Bool) (pace : Pace) (m : Merging α) : Step α :=
  match pace with
  | .single leftWins rightWins => single less leftWins rightWins m
  | .stretches => stretches less { m with often := max 1 (m.often - 1) }

end Back

/-- Two runs of which the second starts before the first does, and the first ends after the second
    does: the shorter one is the one that is held apart. -/
def mergeOverlap (less : α → α → Bool) (often : Nat) (left right : List α) : List α × Nat :=
  let fuel := 2 * (left.length + right.length) + 2
  if left.length ≤ right.length then
    match right with
    | [] => (left, often)
    | y :: right =>
      if right.isEmpty then (y :: left, often)
      else if left.length = 1 then (y :: right ++ left, often)
      else steps (Front.step less) fuel (.single 0 0) ⟨left, right, [y], often⟩
  else
    match left.reverse with
    | [] => (right, often)
    | x :: left =>
      if left.isEmpty then (right ++ [x], often)
      else if right.length = 1 then (right ++ left.reverse ++ [x], often)
      else steps (Back.step less) fuel (.single 0 0) ⟨left, right.reverse, [x], often⟩

def merge (less : α → α → Bool) (often : Nat) (left right : List α) : List α × Nat :=
  match right with
  | [] => (left, often)
  | y :: _ =>
    let skipped := countAtMost less y left 0
    let inside := left.drop skipped
    match inside.getLast? with
    | none => (left ++ right, often)
    | some x =>
      let count := countLess less x right (right.length - 1)
      if count = 0 then (left ++ right, often)
      else
        let (merged, often) := mergeOverlap less often inside (right.take count)
        (left.take skipped ++ merged ++ right.drop count, often)

end HarvestPlan.Order
