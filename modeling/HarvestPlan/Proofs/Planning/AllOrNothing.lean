import HarvestPlan.Proofs.Balance.Built
import HarvestPlan.Proofs.Planning.Published
import HarvestPlan.Proofs.Store.Register

/-!
Publishing is all or nothing. Wherever it ends before the last row is written, the store is what it was,
and if it gets there the store holds the plan that is returned, row by row.
-/
namespace HarvestPlan

open Json (Value)
open Harvest (Stopped)

theorem Store.save_keeps {store kept : Store} {splits : List Split} {cap : Value} {failure : Failure}
    (failed : store.save splits cap = (kept, .error failure)) : kept = store := by
  cases idle : store.database.before with
  | none => exact save_error idle failed
  | some earlier =>
    rcases run_error failed with rfl | ⟨database, changed, rfl⟩
    · rfl
    · have refused : Change.transaction (replacePlan splits cap) store.database =
          (store.database, .error .storeUnavailable) := by
        simp [Change.transaction, Change.andThen, Change.start, idle]
      rw [refused] at changed
      cases changed
      rfl

theorem Store.fingerprint?_found {store : Store} (opened : store.isOpen = true) {i : Nat}
    (fits : Column.integer i = .ok (i : Int)) {row : SplitRow}
    (found : store.tables.split? i = some row) :
    store.fingerprint? (.int i) = .ok (some row.fingerprint) := by
  have reached : store.reach = .ok store.tables := if_pos opened
  have key : Column.key (.int i) = .ok (some (i : Int)) := by
    rw [Column.key, Column.bound, fits]
    rfl
  simp [fingerprint?, reached, key, found, bind, Except.bind, pure, Except.pure]

namespace Planned

/-- The store holds the plan and nothing of any other: as many splits, each with its load and its
    fingerprint under its position, the records of their members, and the cap they were made for. -/
structure IsStored (planned : Planned) (cap : Int) (saved : Store) : Prop where
  tables : Saving.IsIn ⟨planned.plan.splits, .int cap⟩ saved.tables
  count : saved.count = .ok planned.plan.size
  cap : ∀ fallback, saved.metadata (.str Store.capKey) fallback = .ok (.str (toString cap))
  rows : ∀ (i : Nat) (split : Split), planned.plan.splits[i]? = some split →
    ∃ row, saved.tables.split? i = some row ∧ row.load = split.load ∧
      split.fingerprint = .ok row.fingerprint ∧
      saved.fingerprint? (.int i) = .ok (some row.fingerprint)

theorem isStored_save {planned : Planned} {cap : Int} {target saved : Store}
    (built : Balance.AreBuilt planned.plan.splits)
    (saving : target.save planned.plan.splits (.int cap) = (saved, .ok ())) :
    planned.IsStored cap saved := by
  have replaced : target.Replaced saved ⟨planned.plan.splits, .int cap⟩ :=
    Store.save_replaced saving
  obtain ⟨texts, held, entries⟩ := replaced.plan.plan
  have reached : saved.reach = .ok saved.tables := if_pos replaced.opened
  constructor
  case tables => exact replaced.plan
  case count =>
    rw [Store.count, reached]
    exact congrArg Except.ok held.count
  case cap =>
    intro fallback
    have known := replaced.plan.cap
    have key : Column.text (.str Store.capKey) = .ok (some Store.capKey) := rfl
    simp only [Store.metadata, reached, key, bind, Except.bind, Option.bind, known]
    rfl
  case rows =>
    intro i split present
    obtain ⟨row, lines, found, made, -, -⟩ := held.find present
    rw [Nat.zero_add] at found made
    obtain ⟨fits, fingerprint, _, _, hashed, -, -, same⟩ := Store.splitRow_ok made
    have counted := (built split (List.mem_of_getElem? present)).load
    refine ⟨row, found, ?_, ?_, Store.fingerprint?_found replaced.opened fits found⟩
    · rw [Store.splitRow_load made counted, counted]
    · rw [same]
      exact hashed

/-- What is raised comes from the harvest, or else from balancing what it found, or else from saving
    the plan that was made of it. -/
inductive Fails (harvest : Except Stopped HarvestResult) (cap : Int) (target : Store) :
    Stopped → Prop
  | harvesting {stopped : Stopped} (ended : harvest = .error stopped) :
      Fails harvest cap target stopped
  | balancing {result : HarvestResult} {cause : Failure} (ended : harvest = .ok result)
      (balanced : Balance.plan (membersOf result) cap = .error cause) :
      Fails harvest cap target ⟨cause, .start⟩
  | saving {result : HarvestResult} {plan : Plan} {cause : Failure} (ended : harvest = .ok result)
      (balanced : Balance.plan (membersOf result) cap = .ok plan)
      (saved : (target.save plan.splits (.int cap)).2 = .error cause) :
      Fails harvest cap target ⟨cause, .start⟩

def IsAllOrNothing (harvest : Except Stopped HarvestResult) (cap : Int) (target : Store) :
    Store × Except Stopped Planned → Prop
  | (kept, .error stopped) => kept = target ∧ Fails harvest cap target stopped
  | (saved, .ok planned) => harvest = .ok planned.result ∧
    Balance.plan (membersOf planned.result) cap = .ok planned.plan ∧ planned.IsStored cap saved

theorem store_isAllOrNothing (harvest : Except Stopped HarvestResult) (cap : Int) (target : Store) :
    IsAllOrNothing harvest cap target (store (ofHarvest harvest cap) cap target) := by
  cases harvest with
  | error stopped => exact ⟨rfl, .harvesting rfl⟩
  | ok result =>
    cases balanced : Balance.plan (membersOf result) cap with
    | error cause =>
      simp only [ofHarvest, balanced, bind, Except.bind]
      exact ⟨rfl, .balancing rfl balanced⟩
    | ok plan =>
      simp only [ofHarvest, balanced, bind, Except.bind]
      change IsAllOrNothing _ _ _ (store (.ok ⟨result, plan⟩) cap target)
      cases saving : target.save plan.splits (.int cap) with
      | mk reached ended =>
        cases ended with
        | error cause =>
          simp only [store, saving]
          exact ⟨Store.save_keeps saving, .saving rfl balanced (by rw [saving])⟩
        | ok done =>
          simp only [store, saving]
          exact ⟨rfl, balanced, isStored_save (Balance.plan_built balanced) saving⟩

/-- Whatever a harvest ends with, be it of the storage around or any other, and whatever has been stored
    before: a plan is stored as a whole, or there is no trace of it. -/
theorem publish_isAllOrNothing (target : Store) :
    (∀ surroundings config cancel,
      IsAllOrNothing (Harvest.run surroundings config.connection (some config.credentials)
          config.sourcePaths.toList config.isRecursive cancel).result config.cap target
        (publish surroundings config cancel target)) ∧
    ∀ harvest cap, IsAllOrNothing harvest cap target (store (ofHarvest harvest cap) cap target) :=
  ⟨fun _ config _ => store_isAllOrNothing _ config.cap target,
    fun harvest cap => store_isAllOrNothing harvest cap target⟩

end Planned
end HarvestPlan
