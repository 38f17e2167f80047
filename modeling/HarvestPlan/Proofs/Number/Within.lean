import HarvestPlan.Proofs.Number.Whole

namespace HarvestPlan

namespace Binary64

/-- Half a unit beyond the greatest finite number, where rounding leaves the range. -/
def integerLimit : Nat := twoTo 1024 - twoTo 970

theorem integerLimit_eq : integerLimit = (twoTo 53 - 1) * (2 * twoTo 970) + twoTo 970 := by
  decide +kernel

theorem integerLimit_lt : integerLimit < twoTo 1024 := by decide +kernel

theorem nearestQuotient_le {num half most : Nat} (below : num < most * (2 * half) + half) :
    nearestQuotient num (2 * half) ≤ most := by
  have positive : 0 < 2 * half := by
    by_cases none : half = 0
    · rw [none] at below
      omega
    · omega
  have whole := Nat.div_add_mod num (2 * half)
  have quotient : num / (2 * half) ≤ most := by
    apply Nat.le_of_lt_succ
    rw [Nat.div_lt_iff_lt_mul positive, Nat.succ_mul]
    omega
  unfold nearestQuotient
  simp only
  split
  · exact quotient
  · rename_i notDown
    -- The greatest quotient leaves less than half, so it is rounded down.
    have notLast : num / (2 * half) ≠ most := by
      intro last
      rw [last, Nat.mul_comm] at whole
      apply notDown
      left
      omega
    omega

theorem exponentAt_one_le {num bits : Nat} (small : num < twoTo (bits + 53)) (positive : num ≠ 0) :
    exponentAt 52 num 1 ≤ bits := by
  have size : num.log2 < bits + 53 := (Nat.log2_lt positive).mpr small
  have one : Nat.log2 1 = 0 := by decide
  unfold exponentAt
  simp only [one]
  split <;> omega

theorem scaled_one (num bits : Nat) :
    scaled num 1 ((bits + 1 : Nat) : Int) = (num, 2 * twoTo bits) := by
  have up : (((bits + 1 : Nat) : Int)).toNat = bits + 1 := Int.toNat_natCast _
  have down : (-((bits + 1 : Nat) : Int)).toNat = 0 := by omega
  have unit : twoTo (bits + 1) = 2 * twoTo bits := by
    unfold twoTo
    exact Nat.pow_succ'
  unfold scaled
  rw [up, down, unit, Nat.one_mul]
  exact Prod.ext (Nat.mul_one num) rfl

theorem isFinite_of_le {negative : Bool} {mantissa : Nat} {exponent : Int}
    (most : exponent ≤ greatestExponent) :
    (if greatestExponent < exponent then infinite negative
      else finite negative mantissa exponent).isFinite = true := by
  rw [if_neg (by omega)]
  rfl

/-- A quotient that fills up takes the exponent one further, so with the greatest none may. The
    bound on a mantissa is not closed here, or it would be counted down by ones. -/
theorem isFinite_of_notFull {num den full : Nat} {exponent : Int} (negative : Bool)
    (most : exponent ≤ greatestExponent)
    (notFull : exponent = greatestExponent →
      nearestQuotient (scaled num den exponent).1 (scaled num den exponent).2 ≠ full) :
    (match scaled num den exponent with
      | (n, d) =>
        have mantissa := nearestQuotient n d
        match if mantissa = full then (twoTo 52, exponent + 1) else (mantissa, exponent) with
        | (mantissa, exponent) =>
          if greatestExponent < exponent then infinite negative
          else finite negative mantissa exponent).isFinite = true := by
  simp only
  split
  · rename_i rounded
    have less : exponent ≠ greatestExponent := fun last => notFull last rounded
    apply isFinite_of_le
    omega
  · exact isFinite_of_le most

theorem ofRatio_isFinite {num : Nat} (negative : Bool) (below : num < integerLimit) :
    (ofRatio negative num 1).isFinite = true := by
  by_cases zero : num = 0
  · rw [zero]
    rfl
  · unfold ofRatio
    rw [if_neg zero]
    apply isFinite_of_notFull
    · have small : num < twoTo (971 + 53) := Nat.lt_trans below integerLimit_lt
      have bound := exponentAt_one_le small zero
      unfold exponentFor leastExponent greatestExponent
      omega
    · intro last
      have scaling : scaled num 1 greatestExponent = (num, 2 * twoTo 970) := scaled_one num 970
      have bits := nearestQuotient_le (Nat.lt_of_lt_of_eq below integerLimit_eq)
      have positive : 0 < twoTo 53 := by decide
      rw [last, scaling]
      exact Nat.ne_of_lt (Nat.lt_of_le_pred positive bits)

end Binary64

namespace Quantity

/-- An integer is not negative and at most the limit; a binary number may be anything. -/
def IsWithin (limit : Int) (quantity : Quantity) : Prop :=
  ∀ n, quantity.toInt? = some n → 0 ≤ n ∧ n ≤ limit

theorem IsWithin.toBinary {limit : Int} {quantity : Quantity} (inside : quantity.IsWithin limit)
    (small : limit < Binary64.integerLimit) : ∃ x, quantity.toBinary? = some x := by
  cases quantity with
  | float x => exact ⟨x, rfl⟩
  | flag b => exact ⟨_, rfl⟩
  | int n =>
    obtain ⟨positive, below⟩ := inside n rfl
    have finite : (Binary64.ofInt n).isFinite = true := by
      apply Binary64.ofRatio_isFinite
      omega
    exact ⟨.ofInt n, if_pos finite⟩

theorem toInt_add {a b sum : Quantity} (added : a.add? b = some sum) {n : Int}
    (whole : sum.toInt? = some n) :
    ∃ i j, a.toInt? = some i ∧ b.toInt? = some j ∧ n = i + j := by
  unfold add? at added
  split at added
  · cases added
    cases whole
    exact ⟨_, _, ‹_›, ‹_›, rfl⟩
  · obtain ⟨x, -, added⟩ := Option.bind_eq_some_iff.mp added
    obtain ⟨y, -, added⟩ := Option.bind_eq_some_iff.mp added
    cases added
    cases whole

theorem IsWithin.add {a b sum : Quantity} {m n : Int} (left : a.IsWithin m) (right : b.IsWithin n)
    (added : a.add? b = some sum) : sum.IsWithin (m + n) := by
  intro total whole
  obtain ⟨i, j, first, second, rfl⟩ := toInt_add added whole
  have bounds := left i first
  have bounds' := right j second
  omega

theorem notWhole_of_add {a b : Quantity}
    (added : ∀ sum, a.add? b = some sum → sum.toInt? = none) : a.toInt? = none ∨ b.toInt? = none := by
  cases first : a.toInt? with
  | none => exact .inl rfl
  | some i =>
    cases second : b.toInt? with
    | none => exact .inr rfl
    | some j => cases added _ (add_toInt first second)

theorem IsWithin.add_none {a b : Quantity} {m n : Int} (left : a.IsWithin m) (right : b.IsWithin n)
    (nonneg : 0 ≤ m) (nonneg' : 0 ≤ n) (absent : a.add? b = none) :
    (a.toInt? = none ∨ b.toInt? = none) ∧ (Binary64.integerLimit : Int) ≤ m + n := by
  constructor
  · apply notWhole_of_add
    intro sum added
    rw [absent] at added
    cases added
  · apply Int.not_lt.mp
    intro small
    obtain ⟨x, near⟩ := left.toBinary (by omega)
    obtain ⟨y, near'⟩ := right.toBinary (by omega)
    unfold add? at absent
    rw [near, near'] at absent
    split at absent <;> cases absent

end Quantity
end HarvestPlan
