import Mathlib.Algebra.BigOperators.Group.List.Basic
import Mathlib.Algebra.Order.Ring.Int
import HarvestPlan.Split.Basic
import HarvestPlan.Proofs.Number.Whole
import HarvestPlan.Proofs.Outcome

namespace HarvestPlan

namespace Split

def sum? (total : Quantity) (members : List Member) : Option Quantity :=
  members.foldlM (fun total member => member.size?.bind total.add?) total

theorem sum_cons (total : Quantity) (member : Member) (members : List Member) :
    sum? total (member :: members) =
      (member.size?.bind total.add?).bind fun next => sum? next members :=
  List.foldlM_cons

theorem sum_whole {members : List Member} {sizes : List Int}
    (whole : members.map (fun member => member.size?.bind Quantity.toInt?) = sizes.map some)
    (total : Int) : sum? (.int total) members = some (.int (total + sizes.sum)) := by
  induction members generalizing sizes total with
  | nil =>
    obtain rfl : sizes = [] := by simpa using whole.symm
    simp [sum?]
  | cons member rest ih =>
    cases sizes with
    | nil => simp at whole
    | cons first sizes =>
      obtain ⟨own, others⟩ := List.cons.inj whole
      obtain ⟨size, weighs, integer⟩ := Option.bind_eq_some_iff.mp own
      rw [sum_cons, weighs, Option.bind_some, Quantity.add_toInt rfl integer, Option.bind_some,
        ih others, List.sum_cons, Int.add_assoc]

def filled (split : Split) (members : List Member) (load : Int) (total : Quantity) : Split where
  index := split.index
  members := split.members ++ members.toArray
  load := .int (load + members.length)
  totalBytes := total
  finalized := split.finalized

theorem added_filled {split : Split} {member : Member} {load : Int} {size total : Quantity}
    (opened : split.finalized = false) (counted : split.load = .int load)
    (weighs : member.size? = some size) (summed : split.totalBytes.add? size = some total) :
    split.added member = .ok (split.filled [member] load total) := by
  have grown : split.add member = (split.filled [member] load total, .ok ()) := by
    simp [Split.add, opened, counted, nextLoad, weighs, summed, filled]
  simp only [Split.added, grown]

theorem foldlM_filled {split : Split} {members : List Member} {load : Int} {total : Quantity}
    (opened : split.finalized = false) (counted : split.load = .int load)
    (summed : sum? split.totalBytes members = some total) :
    members.foldlM Split.added split = .ok (split.filled members load total) := by
  induction members generalizing split load with
  | nil =>
    cases summed
    simp [filled, ← counted, pure, Except.pure]
  | cons member rest ih =>
    rw [sum_cons] at summed
    obtain ⟨next, here, later⟩ := Option.bind_eq_some_iff.mp summed
    obtain ⟨size, weighs, step⟩ := Option.bind_eq_some_iff.mp here
    have first := added_filled opened counted weighs step
    have others := @ih (split.filled [member] load next) _ opened rfl later
    rw [List.foldlM_cons, first]
    refine others.trans ?_
    simp [filled]
    omega

theorem added_ok {split grown : Split} {member : Member} (done : split.added member = .ok grown) :
    split.finalized = false ∧ ∃ load size total, nextLoad split.load = .ok load ∧
      member.size? = some size ∧ split.totalBytes.add? size = some total ∧
      grown = ⟨split.index, split.members.push member, load, total, false⟩ := by
  unfold added at done
  split at done
  · rename_i result made
    cases done
    unfold add at made
    split at made
    · cases made
    · rename_i opened
      dsimp only at made
      split at made
      · cases made
      · rename_i load counted
        split at made
        · cases made
        · rename_i size weighs
          split at made
          · cases made
          · rename_i total summed
            cases made
            rw [Bool.not_eq_true] at opened
            exact ⟨opened, load, size, total, counted, weighs, summed, by rw [opened]⟩
  · cases done

theorem size_added {split grown : Split} {member : Member} (done : split.added member = .ok grown) :
    grown.size = split.size + 1 := by
  obtain ⟨-, load, size, total, -, -, -, rfl⟩ := added_ok done
  exact Array.size_push member

theorem index_added {split grown : Split} {member : Member} (done : split.added member = .ok grown) :
    grown.index = split.index := by
  obtain ⟨-, load, size, total, -, -, -, rfl⟩ := added_ok done
  rfl

theorem foldlM_ok {split grown : Split} {members : List Member} {load : Int}
    (counted : split.load = .int load) (done : members.foldlM Split.added split = .ok grown) :
    grown.load = .int (load + members.length) ∧
      grown.members.toList = split.members.toList ++ members := by
  induction members generalizing split load with
  | nil =>
    cases done
    simp [counted]
  | cons member rest ih =>
    rw [List.foldlM_cons] at done
    obtain ⟨next, here, done⟩ := Outcome.bind_ok done
    obtain ⟨-, one, size, total, next_load, -, -, rfl⟩ := added_ok here
    rw [counted] at next_load
    cases next_load
    obtain ⟨load_eq, members⟩ := ih rfl done
    constructor
    · rw [load_eq, List.length_cons]
      congr 1
      omega
    · rw [members]
      simp

/-- Adding its members one by one to an empty split makes the split, open or not. -/
def IsBuilt (split : Split) : Prop :=
  split.members.toList.foldlM added (.empty split.index) = .ok { split with finalized := false }

theorem isBuilt_empty (index : Json.Value) : (Split.empty index).IsBuilt := rfl

theorem IsBuilt.finalize {split : Split} (built : split.IsBuilt) : split.finalize.IsBuilt := built

theorem IsBuilt.added {split grown : Split} {member : Member} (built : split.IsBuilt)
    (done : split.added member = .ok grown) : grown.IsBuilt := by
  obtain ⟨opened, load, size, total, -, -, -, rfl⟩ := added_ok done
  have same : { split with finalized := false } = split := by rw [← opened]
  rw [IsBuilt, same] at built
  rw [IsBuilt, Array.toList_push, List.foldlM_append, built]
  show [member].foldlM Split.added split = _
  rw [List.foldlM_cons, done]
  rfl

theorem IsBuilt.load {split : Split} (built : split.IsBuilt) : split.load = .int split.size := by
  have load : split.load = .int (0 + split.members.toList.length) := (foldlM_ok rfl built).1
  rw [load, Int.zero_add]
  rfl

end Split
end HarvestPlan
