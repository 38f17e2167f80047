import Mathlib.Algebra.BigOperators.Group.List.Basic
import Mathlib.Tactic.Ring

namespace HarvestPlan

def IsLevel (low : Nat) (sizes : List Nat) : Prop := ∀ size ∈ sizes, size = low ∨ size = low + 1

theorem IsLevel.sum_bounds {low : Nat} {sizes : List Nat} (level : IsLevel low sizes) :
    sizes.length * low ≤ sizes.sum ∧ sizes.sum ≤ sizes.length * (low + 1) := by
  induction sizes with
  | nil => simp
  | cons size rest ih =>
    have restBounds := ih fun other present => level other (List.mem_cons_of_mem _ present)
    have size_eq := level size (by simp)
    simp only [List.length_cons, List.sum_cons, Nat.succ_mul]
    omega

theorem IsLevel.sum_of_mem {low : Nat} {sizes : List Nat} {size : Nat}
    (level : IsLevel low sizes) (present : size ∈ sizes) :
    (size = low → sizes.sum < sizes.length * (low + 1)) ∧
      (size = low + 1 → sizes.length * low < sizes.sum) := by
  obtain ⟨before, after, rfl⟩ := List.append_of_mem present
  have others : IsLevel low (before ++ after) := by
    intro other member
    apply level other
    simp only [List.mem_append, List.mem_cons] at member ⊢
    tauto
  have bounds := others.sum_bounds
  simp only [List.length_append, List.length_cons, List.sum_append, List.sum_cons,
    Nat.add_mul, Nat.mul_add, Nat.one_mul, Nat.mul_one] at bounds ⊢
  constructor <;> intro same <;> subst same <;> omega

theorem IsLevel.average {low : Nat} {sizes : List Nat} {size : Nat} (level : IsLevel low sizes)
    (present : size ∈ sizes) :
    size = sizes.sum / sizes.length ∨ size = (sizes.sum + sizes.length - 1) / sizes.length := by
  have bounds := level.sum_bounds
  have strict := level.sum_of_mem present
  rcases level size present with same | same
  · left
    have below := strict.1 same
    rw [same, eq_comm]
    apply Nat.div_eq_of_lt_le
    · rw [Nat.mul_comm]
      exact bounds.1
    · rw [Nat.mul_comm]
      exact below
  · right
    have above := strict.2 same
    have once : (low + 1) * sizes.length = sizes.length * low + sizes.length := by ring
    have twice : (low + 1 + 1) * sizes.length = sizes.length * (low + 1) + sizes.length := by ring
    rw [same, eq_comm]
    apply Nat.div_eq_of_lt_le <;> omega

end HarvestPlan
