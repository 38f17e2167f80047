import HarvestPlan.Entry.Record

namespace HarvestPlan

open Json (Value)

inductive Member where
  | entry (entry : Entry)
  | unreadable (fullPath reason : Value)
  | foreign (value : Value)
deriving Repr, DecidableEq

namespace Member

/-- A stand-in; a path that stands for nothing is empty. -/
def standIn (fullPath reason : Value) : Member :=
  unreadable (if fullPath.isEmpty then .str "" else fullPath) reason

/-- A stand-in weighs nothing; a foreign value has no weight at all. -/
def size? : Member → Option Quantity
  | entry e => some e.size
  | unreadable .. => some (.int 0)
  | foreign _ => none

def weight (member : Member) : Quantity := member.size?.getD (.int 0)

def pathText? : Member → Option String
  | entry e => e.fullPath.text?
  | unreadable path _ => path.text?
  | foreign _ => none

def shown : Member → String
  | entry e => e.shown
  | unreadable path reason =>
    "UnreadableEntry(" ++ path.shown ++ ", " ++ reason.shown ++ ")"
  | foreign value => value.shown

end Member
end HarvestPlan
