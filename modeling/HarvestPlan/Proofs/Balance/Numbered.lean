import HarvestPlan.Proofs.Balance.Rounds
import HarvestPlan.Proofs.Balance.Built

namespace HarvestPlan

open Json (Value)

namespace Balance

/-- Splits at the cap and splits below it, which have the numbers up to a count between them. -/
structure IsNumbered (cap : Int) (count : Nat) (full open_ : List Split) : Prop where
  numbers : ((full ++ open_).map (·.index)).Perm ((List.range count).map fun i : Nat => .int i)
  full : ∀ split ∈ full, (split.size : Int) = cap
  below : ∀ split ∈ open_, (split.size : Int) < cap

namespace IsNumbered

variable {cap : Int} {count : Nat} {full open_ rest : List Split} {split grown : Split}

theorem perm (numbered : IsNumbered cap count full open_) (same : open_.Perm rest) :
    IsNumbered cap count full rest where
  numbers := ((same.append_left full).map _).symm.trans numbered.numbers
  full := numbered.full
  below := fun split present => numbered.below split (same.mem_iff.mpr present)

theorem nodup (numbered : IsNumbered cap count full open_) :
    ((full ++ open_).map (·.index)).Nodup := by
  rw [numbered.numbers.nodup_iff]
  refine List.nodup_range.map fun i j same => ?_
  rwa [Value.int.injEq, Nat.cast_inj] at same

theorem stay (numbered : IsNumbered cap count full open_) (taken : open_.Perm (split :: rest))
    (index : grown.index = split.index) (below : (grown.size : Int) < cap) :
    IsNumbered cap count full (grown :: rest) := by
  have numbered := numbered.perm taken
  refine ⟨?_, numbered.full, ?_⟩
  · simpa [index] using numbered.numbers
  · intro other present
    rcases List.mem_cons.mp present with rfl | present
    · exact below
    · exact numbered.below other (List.mem_cons_of_mem _ present)

theorem close (numbered : IsNumbered cap count full open_) (taken : open_.Perm (split :: rest))
    (index : grown.index = split.index) (size : grown.size = split.size + 1)
    (reached : cap ≤ grown.size) : IsNumbered cap count (full ++ [grown.finalize]) rest := by
  have numbered := numbered.perm taken
  have below := numbered.below split List.mem_cons_self
  refine ⟨?_, ?_, fun other present => numbered.below other (List.mem_cons_of_mem _ present)⟩
  · simpa [index, Split.finalize] using numbered.numbers
  · intro other present
    rcases List.mem_append.mp present with present | present
    · exact numbered.full other present
    · rw [List.mem_singleton.mp present, Split.size_finalize]
      omega

theorem finalize (numbered : IsNumbered cap count full open_) :
    IsNumbered cap count full (open_.map (·.finalize)) where
  numbers := by simpa [Function.comp_def, Split.finalize] using numbered.numbers
  full := numbered.full
  below := by
    intro split present
    obtain ⟨held, inside, rfl⟩ := List.mem_map.mp present
    exact numbered.below held inside

end IsNumbered

theorem isNumbered_start {cap : Int} (positive : 1 ≤ cap) (count : Nat) :
    IsNumbered cap count [] (State.start count).opened where
  numbers := by simp [State.start, unfilled, Function.comp_def, Split.empty]
  full := by simp
  below := by
    intro split present
    obtain ⟨index, -, rfl⟩ := List.mem_map.mp present
    simp only [Split.empty, Split.size, List.size_toArray, List.length_nil, Nat.cast_zero]
    omega

def IsArranged (cap : Int) (splits : List Split) : Prop :=
  ∃ full open_, splits = full ++ open_ ∧ IsNumbered cap splits.length full open_ ∧ InOrder open_

theorem IsNumbered.isArranged {cap : Int} {count : Nat} {full open_ : List Split}
    (numbered : IsNumbered cap count full open_) (ordered : InOrder open_) :
    IsArranged cap (full ++ open_) := by
  have length := numbered.numbers.length_eq
  rw [List.length_map, List.length_map, List.length_range] at length
  exact ⟨full, open_, rfl, length ▸ numbered, ordered⟩

theorem IsNumbered.inPlace {cap : Int} {count : Nat} {full open_ : List Split}
    (numbered : IsNumbered cap count full open_) (ordered : InOrder open_)
    (first : full.map (·.index) = (List.range full.length).map fun i : Nat => .int i) :
    (full ++ open_).map (·.index) = (List.range count).map fun i : Nat => .int i := by
  have length := numbered.numbers.length_eq
  rw [List.length_map, List.length_append, List.length_map, List.length_range] at length
  have numbers := numbered.numbers
  rw [← length, List.range_add, List.map_append, List.map_append, first,
    List.perm_append_left_iff] at numbers
  have ascending : ((List.range open_.length).map (full.length + ·)).Pairwise (· < ·) :=
    List.pairwise_map.mpr (List.pairwise_lt_range.imp fun less => Nat.add_lt_add_left less _)
  -- The other numbers are what is left of the range, which can be put in ascending order in one way.
  have rest : open_.map (·.index) =
      ((List.range open_.length).map (full.length + ·)).map fun i : Nat => .int i := by
    refine List.Perm.eq_of_pairwise ?_ ordered ?_ numbers
    · rintro _ _ - - ⟨i, j, rfl, rfl, less⟩ ⟨k, l, upper, lower, greater⟩
      rw [Value.int.injEq, Nat.cast_inj] at upper lower
      omega
    · exact List.pairwise_map.mpr (ascending.imp fun {i j} less => ⟨i, j, rfl, rfl, less⟩)
  rw [List.map_append, first, rest, ← length, List.range_add, List.map_append]

theorem placeOnTop_numbered {cap : Int} {count : Nat} {state next : HeapState} {member : Member}
    (numbered : IsNumbered cap count state.finished state.opened.toList)
    (placed : placeOnTop cap state member = .ok next) :
    IsNumbered cap count next.finished next.opened.toList := by
  obtain ⟨split, left, grown, held, added, ends⟩ := placeOnTop_ok placed
  have index := Split.index_added added
  obtain ⟨reached, rfl⟩ | ⟨below, rfl⟩ := ends
  · exact numbered.close held.symm index (Split.size_added added) reached
  · exact (numbered.stay held.symm index below).perm (Order.Heap.push_perm left grown).symm

theorem IsNumbered.leftInOrder_perm {cap : Int} {count : Nat} {full open_ : List Split}
    (numbered : IsNumbered cap count full open_) : (leftInOrder count open_).Perm open_ := by
  refine Balance.leftInOrder_perm ?_ fun split present => ?_
  · have nodup := numbered.nodup
    rw [List.map_append] at nodup
    exact nodup.of_append_right
  · have known : split.index ∈ (full ++ open_).map (·.index) :=
      List.mem_map_of_mem (List.mem_append_right _ present)
    obtain ⟨i, small, same⟩ := List.mem_map.mp (numbered.numbers.mem_iff.mp known)
    exact ⟨i, List.mem_range.mp small, same.symm⟩

theorem dealFromTop_arranged {cap : Int} {count : Nat} {members : List Member}
    {splits : List Split} (positive : 1 ≤ cap)
    (dealt : dealFromTop cap count members = .ok splits) : IsArranged cap splits := by
  obtain ⟨last, run, done⟩ := Outcome.bind_ok dealt
  cases done
  have start : IsNumbered cap count [] (unfilled count).toArray.toList :=
    isNumbered_start positive count
  have numbered : IsNumbered cap count last.finished last.opened.toList :=
    Outcome.foldlM_ok placeOnTop_numbered start run
  have arranged := (numbered.perm numbered.leftInOrder_perm.symm).finalize.isArranged
  refine arranged ?_
  simpa [InOrder, Function.comp_def, Split.finalize] using
    leftInOrder_inOrder count last.opened.toList

theorem plan_arranged {members : List Member} {cap : Int} {plan : Plan}
    (planned : Balance.plan members cap = .ok plan) : IsArranged cap plan.splits := by
  have positive := plan_ok_positive planned
  obtain empty | ⟨count, ordered, -, dealt⟩ := plan_cases planned
  · rw [empty]
    exact (isNumbered_start positive 0).isArranged (inOrder_start 0)
  · exact dealFromTop_arranged positive dealt

end Balance
end HarvestPlan
