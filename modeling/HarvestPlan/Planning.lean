import HarvestPlan.Config
import HarvestPlan.Harvest
import HarvestPlan.Store.Save

namespace HarvestPlan

structure Planned where
  result : HarvestResult
  plan : Plan
deriving Repr

namespace Planned

open Harvest (Stopped)

def membersOf (result : HarvestResult) : List Member := result.entries.map .entry

def withoutProgress {α : Type} (result : Except Failure α) : Except Stopped α :=
  result.mapError fun cause => ⟨cause, .start⟩

def ofHarvest (harvest : Except Stopped HarvestResult) (cap : Int) : Except Stopped Planned := do
  let result ← harvest
  let plan ← withoutProgress (Balance.plan (membersOf result) cap)
  pure ⟨result, plan⟩

def store (planned : Except Stopped Planned) (cap : Int) (target : Store) :
    Store × Except Stopped Planned :=
  match planned with
  | .error stopped => (target, .error stopped)
  | .ok planned => match target.save planned.plan.splits (.int cap) with
    | (saved, .ok ()) => (saved, .ok planned)
    | (kept, .error cause) => (kept, withoutProgress (.error cause))

def make (surroundings : Surroundings) (config : Config) (cancel : Cancel) :
    Except Stopped Planned :=
  let outcome := Harvest.run surroundings config.connection (some config.credentials)
    config.sourcePaths.toList config.isRecursive cancel
  ofHarvest outcome.result config.cap

def publish (surroundings : Surroundings) (config : Config) (cancel : Cancel) (target : Store) :
    Store × Except Stopped Planned :=
  store (make surroundings config cancel) config.cap target

end Planned
end HarvestPlan
