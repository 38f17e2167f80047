import Mathlib.Data.List.Basic
import HarvestPlan.Balance
import HarvestPlan.Proofs.Order.Heap
import HarvestPlan.Proofs.Split.Filled

namespace HarvestPlan.Balance

theorem placeOnTop_ok {cap : Int} {state next : HeapState} {member : Member}
    (placed : placeOnTop cap state member = .ok next) :
    ∃ split left grown, (split :: left.toList).Perm state.opened.toList ∧
      split.added member = .ok grown ∧
      ((cap ≤ grown.size ∧ next = ⟨left, state.finished ++ [grown.finalize]⟩) ∨
        (grown.size < cap ∧ next = ⟨left.push heapFirst grown, state.finished⟩)) := by
  unfold placeOnTop at placed
  split at placed
  · cases placed
  · rename_i split left popped
    obtain ⟨grown, added, placed⟩ := Outcome.bind_ok placed
    refine ⟨split, left, grown, Order.Heap.pop?_perm popped, added, ?_⟩
    split at placed
    · rename_i reached
      cases placed
      exact .inl ⟨reached, rfl⟩
    · rename_i reached
      cases placed
      exact .inr ⟨Int.not_le.mp reached, rfl⟩

theorem plan_cases {members : List Member} {cap : Int} {plan : Plan}
    (planned : Balance.plan members cap = .ok plan) :
    plan.splits = [] ∨ ∃ count ordered, sort members = .ok ordered ∧
      dealFromTop cap count ordered = .ok plan.splits := by
  obtain ⟨count, -, planned⟩ := Outcome.bind_ok planned
  split at planned
  · cases planned
    exact .inl rfl
  · obtain ⟨ordered, sorts, planned⟩ := Outcome.bind_ok planned
    obtain ⟨splits, dealt, planned⟩ := Outcome.bind_ok planned
    cases planned
    exact .inr ⟨count, ordered, sorts, dealt⟩

def AreBuilt (splits : List Split) : Prop := ∀ split ∈ splits, split.IsBuilt

theorem areBuilt_unfilled (count : Nat) : AreBuilt (unfilled count) := by
  intro split present
  obtain ⟨index, -, rfl⟩ := List.mem_map.mp present
  exact Split.isBuilt_empty _

theorem AreBuilt.finished {splits : List Split} {grown : Split} (built : AreBuilt splits)
    (whole : grown.IsBuilt) : AreBuilt (splits ++ [grown.finalize]) := by
  intro split present
  rcases List.mem_append.mp present with present | present
  · exact built split present
  · rw [List.mem_singleton.mp present]
    exact whole.finalize

theorem AreBuilt.finalized {splits : List Split} (built : AreBuilt splits) :
    AreBuilt (splits.map (·.finalize)) := by
  intro split present
  obtain ⟨held, inside, rfl⟩ := List.mem_map.mp present
  exact (built held inside).finalize

theorem AreBuilt.append {one other : List Split} (first : AreBuilt one)
    (second : AreBuilt other) : AreBuilt (one ++ other) := by
  intro split present
  exact (List.mem_append.mp present).elim (first split) (second split)

theorem placeOnTop_built {cap : Int} {state next : HeapState} {member : Member}
    (built : AreBuilt state.opened.toList ∧ AreBuilt state.finished)
    (placed : placeOnTop cap state member = .ok next) :
    AreBuilt next.opened.toList ∧ AreBuilt next.finished := by
  obtain ⟨opened, finished⟩ := built
  obtain ⟨split, left, grown, held, added, ends⟩ := placeOnTop_ok placed
  have whole := (opened split (held.mem_iff.mp List.mem_cons_self)).added added
  have others : AreBuilt left.toList :=
    fun other present => opened other (held.mem_iff.mp (List.mem_cons_of_mem _ present))
  obtain ⟨-, rfl⟩ | ⟨-, rfl⟩ := ends
  · exact ⟨others, finished.finished whole⟩
  · refine ⟨fun other present => ?_, finished⟩
    rcases List.mem_cons.mp ((Order.Heap.push_perm left grown).mem_iff.mp present) with rfl | present
    · exact whole
    · exact others other present

theorem dealFromTop_built {cap : Int} {count : Nat} {members : List Member} {splits : List Split}
    (dealt : dealFromTop cap count members = .ok splits) : AreBuilt splits := by
  obtain ⟨last, run, done⟩ := Outcome.bind_ok dealt
  cases done
  have built : AreBuilt last.opened.toList ∧ AreBuilt last.finished :=
    Outcome.foldlM_ok placeOnTop_built ⟨areBuilt_unfilled count, by simp [AreBuilt]⟩ run
  refine built.2.append (AreBuilt.finalized ?_)
  intro split present
  obtain ⟨held, -, found⟩ := List.mem_filterMap.mp present
  exact built.1 split (List.mem_of_find?_eq_some found)

theorem plan_built {members : List Member} {cap : Int} {plan : Plan}
    (planned : Balance.plan members cap = .ok plan) : AreBuilt plan.splits := by
  obtain empty | ⟨count, ordered, -, dealt⟩ := plan_cases planned
  · simp [empty, AreBuilt]
  · exact dealFromTop_built dealt

end HarvestPlan.Balance
