import Mathlib.Data.List.Nodup

namespace HarvestPlan.Sorting

open scoped List

variable {α : Type} {a b : α} {items others : List α}

theorem pair_or_pair (present : a ∈ items) (otherPresent : b ∈ items) (differ : a ≠ b) :
    [a, b] <+ items ∨ [b, a] <+ items := by
  obtain ⟨before, after, rfl⟩ := List.append_of_mem present
  rcases List.mem_append.mp otherPresent with earlier | later
  · exact .inr ((List.singleton_sublist.mpr earlier).append (List.singleton_sublist.mpr (by simp)))
  · have rest : b ∈ after := (List.mem_cons.mp later).resolve_left differ.symm
    exact .inl (((List.singleton_sublist.mpr rest).cons_cons a).trans (List.sublist_append_right _ _))

theorem not_pair_swap (once : items.Nodup) (pair : [a, b] <+ items) : ¬[b, a] <+ items := by
  induction items with
  | nil => cases pair
  | cons c rest ih =>
    obtain ⟨absent, onceRest⟩ := List.nodup_cons.mp once
    intro swapped
    rcases List.cons_sublist_cons'.mp pair with within | ⟨rfl, later⟩
    · rcases List.cons_sublist_cons'.mp swapped with also | ⟨rfl, -⟩
      · exact ih onceRest within also
      · exact absent (within.subset (by simp))
    · rcases List.cons_sublist_cons'.mp swapped with also | ⟨rfl, -⟩
      · exact absent (also.subset (by simp))
      · exact absent (later.subset (by simp))

theorem pair_of_perm (once : items.Nodup) (perm : others.Perm items) (pair : [a, b] <+ others)
    (notSwapped : ¬[b, a] <+ items) : [a, b] <+ items := by
  have inside : ∀ c ∈ [a, b], c ∈ items := fun c held => perm.mem_iff.mp (pair.subset held)
  have differ : a ≠ b := by
    rintro rfl
    exact not_pair_swap (perm.nodup_iff.mpr once) pair pair
  exact (pair_or_pair (inside a (by simp)) (inside b (by simp)) differ).resolve_right notSwapped

theorem pair_append : [a, b] <+ items ++ others ↔
    [a, b] <+ items ∨ (a ∈ items ∧ b ∈ others) ∨ [a, b] <+ others := by
  induction items with
  | nil => simp
  | cons c rest ih =>
    rw [List.cons_append, List.cons_sublist_cons', List.cons_sublist_cons', ih,
      List.singleton_sublist, List.singleton_sublist, List.mem_append, List.mem_cons]
    constructor
    · rintro ((within | ⟨first, second⟩ | after) | ⟨same, within | second⟩)
      · exact .inl (.inl within)
      · exact .inr (.inl ⟨.inr first, second⟩)
      · exact .inr (.inr after)
      · exact .inl (.inr ⟨same, within⟩)
      · exact .inr (.inl ⟨.inl same, second⟩)
    · rintro ((within | ⟨same, within⟩) | ⟨same | first, second⟩ | after)
      · exact .inl (.inl within)
      · exact .inr ⟨same, .inl within⟩
      · exact .inr ⟨same, .inr second⟩
      · exact .inl (.inr (.inl ⟨first, second⟩))
      · exact .inl (.inr (.inr after))

theorem pair_filter {keep : α → Bool} :
    [a, b] <+ items.filter keep ↔ keep a = true ∧ keep b = true ∧ [a, b] <+ items := by
  constructor
  · intro pair
    have kept : ∀ c ∈ [a, b], keep c = true := fun c held => (List.mem_filter.mp (pair.subset held)).2
    exact ⟨kept a (by simp), kept b (by simp), pair.trans List.filter_sublist⟩
  · rintro ⟨first, second, pair⟩
    simpa [first, second] using pair.filter keep

section Stable

variable {le : α → α → Bool} (trans : ∀ a b c, le a b = true → le b c = true → le a c = true)
  (total : ∀ a b, (le a b || le b a) = true)

include trans total

theorem pairwise_mergeSort_stable (once : items.Nodup) :
    (items.mergeSort le).Pairwise fun a b => le a b = true ∧ (le b a = true → [a, b] <+ items) := by
  refine List.pairwise_iff_forall_sublist.mpr fun {a b} pair => ?_
  have sorted := List.pairwise_iff_forall_sublist.mp (List.pairwise_mergeSort trans total items) pair
  refine ⟨sorted, fun even => ?_⟩
  refine pair_of_perm once (List.mergeSort_perm items le) pair fun swapped => ?_
  exact not_pair_swap (List.nodup_mergeSort.mpr once) pair
    (List.pair_sublist_mergeSort trans total even swapped)

theorem filter_mergeSort_eq (once : items.Nodup) (perm : others.Perm items) {keep : α → Bool}
    (alike : ∀ a b, keep a = true → keep b = true → le a b = true → le b a = true →
      [a, b] <+ others → [a, b] <+ items) :
    (others.mergeSort le).filter keep = (items.mergeSort le).filter keep := by
  have sorted := (pairwise_mergeSort_stable trans total once).filter keep
  have otherSorted : ((others.mergeSort le).filter keep).Pairwise fun a b =>
      le a b = true ∧ (le b a = true → [a, b] <+ items) := by
    refine ((pairwise_mergeSort_stable trans total (perm.nodup_iff.mpr once)).filter
      keep).imp_of_mem ?_
    rintro a b present otherPresent ⟨less, first⟩
    exact ⟨less, fun even => alike a b (List.mem_filter.mp present).2
      (List.mem_filter.mp otherPresent).2 less even (first even)⟩
  have rearranged : (others.mergeSort le).Perm (items.mergeSort le) :=
    ((List.mergeSort_perm others le).trans perm).trans (List.mergeSort_perm items le).symm
  refine (rearranged.filter keep).eq_of_pairwise ?_ otherSorted sorted
  rintro a b - - ⟨less, first⟩ ⟨more, second⟩
  exact absurd (second less) (not_pair_swap once (first more))

theorem pair_of_mergeSort_eq (once : items.Nodup) (perm : others.Perm items)
    (same : others.mergeSort le = items.mergeSort le) (less : le a b = true) (even : le b a = true)
    (pair : [a, b] <+ others) : [a, b] <+ items := by
  have sorted := List.pair_sublist_mergeSort trans total less pair
  rw [same] at sorted
  refine pair_of_perm once perm pair fun swapped => ?_
  exact not_pair_swap (List.nodup_mergeSort.mpr once) sorted
    (List.pair_sublist_mergeSort trans total even swapped)

end Stable

end HarvestPlan.Sorting
