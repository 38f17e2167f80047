import HarvestPlan.Balance

namespace HarvestPlan.Balance

def lightest : List Split → Option Split
  | [] => none
  | split :: rest => match lightest rest with
    | none => some split
    | some other => some (if lighter other split then other else split)

/-- The splits that can receive entries, by ascending index, and those at the cap in the order in
    which they reached it. -/
structure State where
  opened : List Split
  finished : List Split
deriving Repr

def State.start (count : Nat) : State := ⟨unfilled count, []⟩

def replace (split : Split) (splits : List Split) : List Split :=
  splits.map fun other => if other.index = split.index then split else other

def remove (index : Json.Value) (splits : List Split) : List Split :=
  splits.filter fun other => other.index ≠ index

def place (cap : Int) (state : State) (member : Member) : Except Failure State :=
  match lightest state.opened with
  | none => .error .noOpenSplit
  | some split => do
    let grown ← split.added member
    if cap ≤ grown.size then
      pure ⟨remove grown.index state.opened, state.finished ++ [grown.finalize]⟩
    else pure ⟨replace grown state.opened, state.finished⟩

def State.splits (state : State) : List Split := state.finished ++ state.opened.map (·.finalize)

def deal (cap : Int) (count : Nat) (members : List Member) : Except Failure (List Split) := do
  let state ← members.foldlM (place cap) (State.start count)
  pure state.splits

end HarvestPlan.Balance
