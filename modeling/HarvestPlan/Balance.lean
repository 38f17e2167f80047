import HarvestPlan.Order.Heap
import HarvestPlan.Order.Runs
import HarvestPlan.Split.Basic

/-!
Balancing: entries are dealt out largest first, each to the open split with the fewest entries,
then the fewest bytes, then the lowest index. A split that reaches the cap is finalized and receives
no more. Sizes that cannot be compared have no largest; then the comparisons that are made decide.
-/
namespace HarvestPlan

open Json (Value)

/-- Finalized splits, addressed by their position, and the cap as it was given. -/
structure Plan where
  splits : List Split
  cap : Value
deriving Repr, DecidableEq

namespace Plan

def size (plan : Plan) : Nat := plan.splits.length

def loads (plan : Plan) : List Value := plan.splits.map (·.load)

def totals (plan : Plan) : List Quantity := plan.splits.map (·.totalBytes)

def split (plan : Plan) (index : Int) : Except Failure Split :=
  match index with
  | .ofNat i => match plan.splits[i]? with
    | some split => .ok split
    | none => .error (.planIndex (.int index) plan.size)
  | .negSucc _ => .error (.planIndex (.int index) plan.size)

/-- The split at a position of any kind. A number outside the plan is refused as such; of those
    inside only an integer or a truth value is a position. -/
def splitAt (plan : Plan) (index : Value) : Except Failure Split :=
  match index.quantity? with
  | none => .error .wrongKind
  | some number =>
    if !((Quantity.int 0).atMost number && number.less (.int plan.size)) then
      .error (.planIndex index plan.size)
    else match number.toInt? with
      | some position => plan.split position
      | none => .error .wrongKind

end Plan

namespace Balance

def defaultCap : Int := 128

/-- The least number of splits that hold `total` entries with at most `cap` in each. -/
def numSplits (total cap : Int) : Except Failure Nat :=
  if cap < 1 then .error (.refused (.notPositive (.int cap)))
  else if total ≤ 0 then .ok 0
  else .ok ((total - 1) / cap + 1).toNat

def heavierFirst (a b : Member) : Bool := !a.weight.less b.weight

/-- Largest first; members of equal size keep their order. -/
def sorted (members : List Member) : List Member := members.mergeSort heavierFirst

def areComparable (members : List Member) : Bool :=
  members.all fun member => member.weight.same member.weight

def comesBefore (a b : Member × Nat) : Bool :=
  if a.1.weight.same b.1.weight then a.2 < b.2 else b.1.weight.less a.1.weight

/-- The members in the order that the comparisons lead to, some of which have no answer. -/
def arranged (members : List Member) : List Member :=
  (Order.sortRuns comesBefore members.zipIdx).map (·.1)

def sort (members : List Member) : Except Failure (List Member) :=
  if !members.all (·.size?.isSome) then .error .lacksOperation
  else if areComparable members then .ok (sorted members)
  else .ok (arranged members)

def lighter (a b : Split) : Bool :=
  a.size < b.size || (a.size == b.size && a.totalBytes.less b.totalBytes)

/-- Open splits in a heap of the lightest first, and those at the cap in the order in which they
    reached it. Totals that cannot be compared have no lightest; then the heap decides. -/
structure HeapState where
  opened : Order.Heap Split
  finished : List Split

def heapFirst (a b : Split) : Bool :=
  lighter a b ||
    (a.size == b.size && a.totalBytes.same b.totalBytes && positionOf a < positionOf b)
where
  positionOf (split : Split) : Int := (split.index.quantity?.bind Quantity.toInt?).getD 0

def placeOnTop (cap : Int) (state : HeapState) (member : Member) : Except Failure HeapState :=
  match state.opened.pop? heapFirst with
  | none => .error .noOpenSplit
  | some (split, opened) => do
    let grown ← split.added member
    if cap ≤ grown.size then pure ⟨opened, state.finished ++ [grown.finalize]⟩
    else pure ⟨opened.push heapFirst grown, state.finished⟩

def unfilled (count : Nat) : List Split :=
  (List.range count).map fun (i : Nat) => Split.empty (.int i)

def leftInOrder (count : Nat) (opened : List Split) : List Split :=
  (unfilled count).filterMap fun split => opened.find? fun other => other.index = split.index

/-- The splits that the members are dealt out to in order, each to the one on top of the heap. -/
def dealFromTop (cap : Int) (count : Nat) (members : List Member) :
    Except Failure (List Split) := do
  let state ← members.foldlM (placeOnTop cap) ⟨(unfilled count).toArray, []⟩
  pure (state.finished ++ (leftInOrder count state.opened.toList).map (·.finalize))

def plan (members : List Member) (cap : Int) : Except Failure Plan := do
  let count ← numSplits members.length cap
  if count = 0 then pure ⟨[], .int cap⟩
  else
    let ordered ← sort members
    let splits ← dealFromTop cap count ordered
    pure ⟨splits, .int cap⟩

def checkCap (cap : Value) : Except Failure Quantity :=
  match cap.quantity? with
  | none => .error .wrongKind
  | some number =>
    if number.less (.int 1) then .error (.refused (.notPositive cap)) else .ok number

/-- The plan under a cap of any kind. A cap that is no integer makes no count of splits, which only
    matters if there are members. -/
def planUnder (members : List Member) (cap : Value) : Except Failure Plan := do
  let number ← checkCap cap
  match number.toInt? with
  | some most => do
    let plan ← plan members most
    pure { plan with cap := cap }
  | none => if members.isEmpty then pure ⟨[], cap⟩ else throw .wrongKind

/-- The least number of splits for a total and a cap of any kind; it is a binary number if one of
    them is. -/
def splitCount (total cap : Value) : Except Failure Quantity := do
  let cap ← checkCap cap
  let some total := total.quantity? | throw .wrongKind
  if total.atMost (.int 0) then pure (.int 0)
  else
    match (do (← total.add? (.int (-1))).floorQuotient? cap) >>= (·.add? (.int 1)) with
    | some count => pure count
    | none => throw .beyondRange

end Balance
end HarvestPlan
