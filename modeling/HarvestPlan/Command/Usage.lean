import HarvestPlan.Entry.Fault

namespace HarvestPlan.Command

inductive ArgumentFault where
  | absent
  | notWanted (text : String)
  | notInteger (text : String)
  | notAChoice (text : String) (choices : List String)
deriving Repr, DecidableEq

inductive UsageFault where
  | argument (name : String) (fault : ArgumentFault)
  | ambiguous (given : String) (candidates : List String)
  | required (names : List String)
  | unrecognized (arguments : List String)
deriving Repr, DecidableEq

inductive Stop where
  | help (program : String)
  | misuse (program : String) (fault : UsageFault)
deriving Repr, DecidableEq

open EntryFault (commaList)

def ArgumentFault.message : ArgumentFault → String
  | absent => "expected one argument"
  | notWanted text => "ignored explicit argument " ++ Text.quoted text
  | notInteger text => "invalid int value: " ++ Text.quoted text
  | notAChoice text choices =>
    "invalid choice: " ++ Text.quoted text ++ " (choose from " ++
      commaList (choices.map Text.quoted) ++ ")"

def UsageFault.message : UsageFault → String
  | argument name fault => "argument " ++ name ++ ": " ++ fault.message
  | ambiguous given candidates =>
    "ambiguous option: " ++ given ++ " could match " ++ commaList candidates
  | required names => "the following arguments are required: " ++ commaList names
  | unrecognized arguments => "unrecognized arguments: " ++ " ".intercalate arguments

def usageMessage (program : String) (fault : UsageFault) : String :=
  program ++ ": error: " ++ fault.message

end HarvestPlan.Command
