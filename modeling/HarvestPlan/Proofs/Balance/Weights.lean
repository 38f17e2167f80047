import Mathlib.Algebra.BigOperators.Group.List.Basic
import Mathlib.Algebra.Order.Ring.Int
import Mathlib.Data.Prod.Lex
import Mathlib.Order.Bounds.Basic
import HarvestPlan.Balance
import HarvestPlan.Proofs.Number.Whole

namespace HarvestPlan

namespace Member

/-- The size of a member is an integer, neither a truth value nor a binary number. -/
def IsWhole (member : Member) : Prop := ∃ n : Int, member.size? = some (.int n)

def bytes (member : Member) : Int :=
  match member.size? with
  | some (.int n) => n
  | _ => 0

theorem IsWhole.size {member : Member} (whole : member.IsWhole) :
    member.size? = some (.int member.bytes) := by
  obtain ⟨n, size⟩ := whole
  simp [bytes, size]

theorem IsWhole.weight {member : Member} (whole : member.IsWhole) :
    member.weight = .int member.bytes := by
  simp [Member.weight, whole.size]

end Member

namespace Split

def bytes (split : Split) : Int := (split.members.toList.map Member.bytes).sum

structure IsCounted (split : Split) : Prop where
  load : split.load = .int split.size
  total : split.totalBytes = .int split.bytes

def taking (split : Split) (member : Member) : Split where
  index := split.index
  members := split.members.push member
  load := .int (split.size + 1)
  totalBytes := .int (split.bytes + member.bytes)
  finalized := split.finalized

theorem size_taking (split : Split) (member : Member) :
    (split.taking member).size = split.size + 1 := by
  simp [Split.size, Split.taking]

theorem bytes_taking (split : Split) (member : Member) :
    (split.taking member).bytes = split.bytes + member.bytes := by
  simp [Split.bytes, Split.taking]

theorem isCounted_taking (split : Split) (member : Member) : (split.taking member).IsCounted := by
  constructor
  · rw [size_taking]
    rfl
  · rw [bytes_taking]
    rfl

theorem isCounted_empty (index : Json.Value) : (Split.empty index).IsCounted := by
  constructor <;> simp [Split.empty, Split.size, Split.bytes]

theorem IsCounted.finalize {split : Split} (counted : split.IsCounted) :
    split.finalize.IsCounted := ⟨counted.load, counted.total⟩

theorem IsCounted.added {split : Split} {member : Member} (counted : split.IsCounted)
    (opened : split.finalized = false) (whole : member.IsWhole) :
    split.added member = .ok (split.taking member) := by
  have grown : split.add member = (split.taking member, .ok ()) := by
    simp only [Split.add, opened, Bool.false_eq_true, if_false, counted.load, nextLoad,
      whole.size, counted.total, Quantity.add_int, Split.taking]
  simp only [Split.added, grown]

theorem IsCounted.foldlM_added {split : Split} (counted : split.IsCounted)
    (opened : split.finalized = false) {members : List Member}
    (whole : ∀ member ∈ members, member.IsWhole) :
    ∃ grown, members.foldlM Split.added split = .ok grown ∧ grown.IsCounted ∧
      grown.index = split.index ∧ grown.finalized = false ∧
      grown.members.toList = split.members.toList ++ members := by
  induction members generalizing split with
  | nil => exact ⟨split, rfl, counted, rfl, opened, by simp⟩
  | cons member rest ih =>
    have first := counted.added opened (whole member (by simp))
    obtain ⟨grown, sum, recounted, index, stillOpen, held⟩ :=
      ih (split.isCounted_taking member) opened fun other present =>
        whole other (List.mem_cons_of_mem _ present)
    refine ⟨grown, ?_, recounted, index, stillOpen, ?_⟩
    · rw [List.foldlM_cons, first]
      exact sum
    · rw [held]
      simp [taking]

theorem IsCounted.added_again {split : Split} (counted : split.IsCounted)
    (whole : ∀ member ∈ split.members.toList, member.IsWhole) (index : Json.Value) :
    split.members.toList.foldlM Split.added (.empty index) =
      .ok { split with index := index, finalized := false } := by
  obtain ⟨grown, sum, recounted, sameIndex, opened, held⟩ :=
    (isCounted_empty index).foldlM_added rfl whole
  have members : grown.members = split.members := by
    rw [← Array.toList_inj, held]
    rfl
  have load : grown.load = split.load := by
    rw [recounted.load, counted.load, size, size, members]
  have total : grown.totalBytes = split.totalBytes := by
    rw [recounted.total, counted.total, bytes, bytes, members]
  rw [sum, ← members, ← load, ← total]
  obtain ⟨_, _, _, _, _⟩ := grown
  cases sameIndex
  cases opened
  rfl

def key (split : Split) : Nat ×ₗ Int := toLex (split.size, split.bytes)

@[simp] theorem size_finalize (split : Split) : split.finalize.size = split.size := rfl

theorem size_le_of_key_le {a b : Split} (le : a.key ≤ b.key) : a.size ≤ b.size :=
  (Prod.Lex.monotone_fst _ _ le : _)

theorem bytes_le_of_key_le {a b : Split} (le : a.key ≤ b.key) (same : b.size = a.size) :
    a.bytes ≤ b.bytes := by
  rcases Prod.Lex.toLex_le_toLex.mp le with smaller | ⟨-, least⟩
  · exact absurd same (Nat.ne_of_gt smaller)
  · exact least

end Split

namespace Balance

theorem lighter_iff {a b : Split} (ca : a.IsCounted) (cb : b.IsCounted) :
    lighter a b = true ↔ a.key < b.key := by
  simp [lighter, Split.key, Prod.Lex.toLex_lt_toLex, ca.total, cb.total, Quantity.less_int]

theorem heavierFirst_whole {a b : Member} (whole : a.IsWhole) (otherWhole : b.IsWhole) :
    heavierFirst a b = decide (b.bytes ≤ a.bytes) := by
  rw [heavierFirst, whole.weight, otherWhole.weight, Quantity.less_int, ← decide_not]
  exact decide_eq_decide.mpr Int.not_lt

theorem areComparable_of_whole {members : List Member}
    (whole : ∀ member ∈ members, member.IsWhole) : areComparable members = true := by
  rw [areComparable, List.all_eq_true]
  intro member present
  simp [(whole member present).weight, Quantity.same_int]

theorem sort_of_whole {members : List Member} (whole : ∀ member ∈ members, member.IsWhole) :
    sort members = .ok (sorted members) := by
  have sizes : members.all (·.size?.isSome) = true := by
    rw [List.all_eq_true]
    intro member present
    simp [(whole member present).size]
  simp [sort, sizes, areComparable_of_whole whole]

theorem sorted_perm (members : List Member) : (sorted members).Perm members :=
  List.mergeSort_perm members heavierFirst

end Balance
end HarvestPlan
