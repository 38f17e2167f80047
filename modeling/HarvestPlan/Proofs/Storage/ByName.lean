import HarvestPlan.Storage.Backend
import HarvestPlan.Proofs.Sorting

namespace HarvestPlan

theorem byName_trans (a b c : Status) : decide (a.name.text ≤ b.name.text) = true →
    decide (b.name.text ≤ c.name.text) = true → decide (a.name.text ≤ c.name.text) = true := by
  simp only [decide_eq_true_eq]
  exact String.le_trans

theorem byName_total (a b : Status) :
    (decide (a.name.text ≤ b.name.text) || decide (b.name.text ≤ a.name.text)) = true := by
  simp only [Bool.or_eq_true, decide_eq_true_eq]
  exact String.le_total _ _

theorem byName_perm (statuses : List Status) : (byName statuses).Perm statuses :=
  List.mergeSort_perm statuses _

theorem byName_pairwise (statuses : List Status) :
    (byName statuses).Pairwise fun status other => status.name.text ≤ other.name.text := by
  simpa only [decide_eq_true_eq, byName] using
    List.pairwise_mergeSort byName_trans byName_total statuses

theorem byName_eq {statuses ordered : List Status} (perm : ordered.Perm statuses)
    (ascends : ordered.Pairwise fun status other => status.name.text ≤ other.name.text)
    (apart : ∀ status ∈ statuses, ∀ other ∈ statuses,
      status.name.text = other.name.text → status = other) : byName statuses = ordered := by
  have sorted := byName_perm statuses
  refine (sorted.trans perm.symm).eq_of_pairwise ?_ (byName_pairwise statuses) ascends
  intro status other present otherPresent least most
  exact apart status (sorted.mem_iff.mp present) other (perm.mem_iff.mp otherPresent)
    (String.le_antisymm least most)

theorem byName_filter {statuses : List Status} (kept : Status → Bool)
    (apart : ∀ status ∈ statuses, ∀ other ∈ statuses,
      status.name.text = other.name.text → status = other) :
    byName (statuses.filter kept) = (byName statuses).filter kept :=
  byName_eq ((byName_perm statuses).filter kept)
    ((byName_pairwise statuses).filter kept) fun status present other otherPresent =>
      apart status (List.mem_filter.mp present).1 other (List.mem_filter.mp otherPresent).1

end HarvestPlan
