import HarvestPlan.Split.Basic

/-!
Reading a split: its members become records one after another. A member that cannot be converted is
noted with its position and passed over, and the rest is still read.
-/
namespace HarvestPlan

open Json (Value Fields)

structure RecordError where
  position : Nat
  fullPath : Value
  text : Value
deriving Repr, DecidableEq

namespace RecordError

def shownAs (position fullPath text : Value) : String :=
  "RecordError(" ++ position.text ++ ", " ++ fullPath.shown ++ ", " ++ text.shown ++ ")"

def shown (error : RecordError) : String :=
  shownAs (.int error.position) error.fullPath error.text

end RecordError

structure SplitReader where
  position : Nat
  rest : List Member
  recordsRead : Nat
  errors : List RecordError
deriving Repr

namespace SplitReader

def foreignMember? (position : Nat) : List Member → Option (Nat × Value)
  | [] => none
  | .foreign value :: _ => some (position, value)
  | _ :: rest => foreignMember? (position + 1) rest

def loadFits (split : Split) : Bool := split.load.sameKey (.int split.size)

def damage? (split : Split) : Option Damage :=
  if !split.finalized then some .notFinalized
  else if !loadFits split then some (.loadMismatch split.load split.size)
  else (foreignMember? 0 split.members.toList).map fun (position, value) =>
    .notAnEntry position value.kindName

def ofSplit (split : Split) : Except Failure SplitReader :=
  match damage? split with
  | some damage => .error (.damaged split.index damage)
  | none => .ok ⟨0, split.members.toList, 0, []⟩

def convert : Member → Except (Value × Value) Fields
  | .entry entry => entry.toRecord.mapError fun fault => (entry.fullPath, .str fault.message)
  | .unreadable path reason => .error (path, reason)
  | .foreign value => .error (.null, .str value.kindName)

def nextFrom (position recordsRead : Nat) (errors : List RecordError) :
    List Member → Option Fields × SplitReader
  | [] => (none, ⟨position, [], recordsRead, errors⟩)
  | member :: rest => match convert member with
    | .ok record => (some record, ⟨position + 1, rest, recordsRead + 1, errors⟩)
    | .error (path, text) =>
      nextFrom (position + 1) recordsRead (errors ++ [⟨position, path, text⟩]) rest

/-- The next record, or none at the end; asking again at the end changes nothing. -/
def next (reader : SplitReader) : Option Fields × SplitReader :=
  nextFrom reader.position reader.recordsRead reader.errors reader.rest

def drainFrom : (fuel : Nat) → SplitReader → List Fields × SplitReader
  | 0, reader => ([], reader)
  | fuel + 1, reader => match reader.next with
    | (none, ended) => ([], ended)
    | (some record, rest) =>
      let (records, ended) := drainFrom fuel rest
      (record :: records, ended)

def drain (reader : SplitReader) : List Fields × SplitReader :=
  drainFrom (reader.rest.length + 1) reader

end SplitReader
end HarvestPlan
