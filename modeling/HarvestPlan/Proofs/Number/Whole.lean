import HarvestPlan.Store.Cell

namespace HarvestPlan

theorem Quantity.less_int (a b : Int) : (Quantity.int a).less (.int b) = decide (a < b) := by
  simp [Quantity.less, Quantity.extent, Extent.less]

theorem Quantity.less_toInt {a : Quantity} {i : Int} (integer : a.toInt? = some i) (b : Int) :
    a.less (.int b) = decide (i < b) := by
  cases a with
  | float x => cases integer
  | int n =>
    cases integer
    exact less_int i b
  | flag truth =>
    cases integer
    exact less_int (ofBool truth) b

theorem Quantity.same_int (a b : Int) : (Quantity.int a).same (.int b) = decide (a = b) := by
  simp [Quantity.same, Quantity.extent, Extent.same]

theorem Quantity.atMost_int (a b : Int) : (Quantity.int a).atMost (.int b) = decide (a ≤ b) := by
  rw [Quantity.atMost, less_int, same_int, ← Bool.decide_or]
  exact decide_eq_decide.mpr (by omega)

theorem Quantity.add_int (a b : Int) : (Quantity.int a).add? (.int b) = some (.int (a + b)) := rfl

theorem Quantity.add_toInt {a b : Quantity} {i j : Int} (left : a.toInt? = some i)
    (right : b.toInt? = some j) : a.add? b = some (.int (i + j)) := by
  simp [Quantity.add?, left, right]

theorem Cell.same_ofInt (a b : Int) : (Cell.ofInt a).same (.ofInt b) = decide (a = b) :=
  Quantity.same_int a b

theorem Cell.atMost_ofInt (a b : Int) : (Cell.ofInt a).atMost (.ofInt b) = decide (a ≤ b) :=
  Quantity.atMost_int a b

end HarvestPlan
