import HarvestPlan.Proofs.Entry.Plain
import HarvestPlan.Proofs.Lists
import HarvestPlan.Proofs.Split.Accounted

namespace HarvestPlan.SplitReader

open Json (Fields)

theorem accounted_readable {members : List Member} {records : List Fields}
    (readable : members.Forall₂ (fun member record => convert member = .ok record) records)
    (start : Nat) :
    (recordsFrom start members).map (·.2) = records ∧ failuresFrom start members = [] := by
  induction readable generalizing start with
  | nil => exact ⟨rfl, rfl⟩
  | @cons member record rest others here _ ih =>
    obtain ⟨records, failures⟩ := ih (start + 1)
    rw [recordsFrom_cons, failuresFrom_cons, convert_ok_iff.mp here]
    simp [records, failures]

theorem drain_readable {split : Split} (finalized : split.finalized = true)
    (counted : split.load = .int split.size) {records : List Fields}
    (readable : split.members.toList.Forall₂ (fun member record => convert member = .ok record)
      records) :
    ∃ reader, ofSplit split = .ok reader ∧
      reader.drain = (records, ⟨split.size, [], split.size, []⟩) := by
  have fits : loadFits split = true := by
    simp [loadFits, counted, Json.Value.sameKey, Json.Value.quantity?, Quantity.same, Quantity.extent,
      Extent.same]
  have own : ∀ member ∈ split.members.toList, member.isForeign = false := by
    refine Lists.forall_left readable fun member record here => ?_
    cases member with
    | foreign value => cases here
    | _ => rfl
  refine ⟨_, (ofSplit_eq_ok_iff split _).mpr ⟨⟨finalized, fits, own⟩, rfl⟩, ?_⟩
  obtain ⟨given, failures⟩ := accounted_readable readable 0
  obtain ⟨-, ended, drained, -, -, read⟩ :=
    (hasRead_start split.members.toList).drain (Nat.lt_succ_self _)
  have whole : SplitReader.drain ⟨0, split.members.toList, 0, []⟩ = (records, ended) :=
    given ▸ drained
  have count : (recordsFrom 0 split.members.toList).length = split.size := by
    have all := length_accounted 0 split.members.toList
    rwa [failures, List.length_nil, Nat.add_zero] at all
  obtain ⟨position, rest, recordsRead, errors⟩ := ended
  obtain rfl : position = split.size := read.position
  obtain rfl : rest = [] := read.rest
  obtain rfl : recordsRead = split.size := read.recordsRead.trans count
  obtain rfl : errors = [] := List.map_eq_nil_iff.mp (read.noted.trans failures)
  exact whole

end HarvestPlan.SplitReader
