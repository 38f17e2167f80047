import Mathlib.Algebra.Order.Ring.Int
import Mathlib.Data.List.Perm.Subperm
import Mathlib.Data.List.Range
import Mathlib.Tactic.Positivity
import HarvestPlan.Proofs.Lists
import HarvestPlan.Proofs.Store.Records

namespace HarvestPlan

theorem Quantity.extent_of_same {quantity : Quantity} {n : Int}
    (same : quantity.same (.int n) = true) :
    ∃ den : Nat, 0 < den ∧ quantity.extent = .point (n * den) den := by
  cases quantity with
  | int i =>
    refine ⟨1, Nat.one_pos, ?_⟩
    rw [Quantity.same_int, decide_eq_true_eq] at same
    simp [Quantity.extent, same]
  | flag b =>
    refine ⟨1, Nat.one_pos, ?_⟩
    simp only [Quantity.same, Quantity.extent, Extent.same] at same
    simp_all [Quantity.extent]
  | float x =>
    cases x with
    | nan => cases same
    | infinite negative => cases negative <;> cases same
    | finite negative mantissa exponent =>
      refine ⟨twoTo (-exponent).toNat, Nat.two_pow_pos _, ?_⟩
      simp only [Quantity.same, Quantity.extent, Extent.same, Binary64.magnitude] at same
      simp_all [Quantity.extent, Binary64.magnitude]

namespace Cell

/-- Cells that hold integers are in the order of these, as binary numbers too. -/
theorem atMost_of_same {a b : Cell} {m n : Int} (left : a.same (.ofInt m) = true)
    (right : b.same (.ofInt n) = true) : a.atMost b = decide (m ≤ n) := by
  cases a with
  | text s => cases left
  | number p =>
    cases b with
    | text s => cases right
    | number q =>
      obtain ⟨c, cPositive, p_eq⟩ := Quantity.extent_of_same left
      obtain ⟨d, dPositive, q_eq⟩ := Quantity.extent_of_same right
      have scale : (0 : Int) < c * d := by positivity
      have less : m * c * d < n * d * c ↔ m < n := by
        rw [mul_assoc, mul_assoc, mul_comm (d : Int) c]
        exact mul_lt_mul_iff_left₀ scale
      have equal : m * c * d = n * d * c ↔ m = n := by
        rw [mul_assoc, mul_assoc, mul_comm (d : Int) c]
        exact mul_left_inj' scale.ne'
      simp only [atMost, Quantity.atMost, Quantity.less, Quantity.same, p_eq, q_eq, Extent.less,
        Extent.same, less, equal, ← Bool.decide_or]
      exact decide_eq_decide.mpr le_iff_lt_or_eq.symm

theorem eq_of_same {cell : Cell} {m n : Int} (left : cell.same (.ofInt m) = true)
    (right : cell.same (.ofInt n) = true) : m = n := by
  have self : cell.atMost cell = true := by
    rw [atMost_of_same left left]
    exact decide_eq_true (Int.le_refl m)
  have up : m ≤ n := by simpa [atMost_of_same left right] using self
  have down : n ≤ m := by simpa [atMost_of_same right left] using self
  omega

end Cell

def Tables.rowsOf (tables : Tables) (split : Cell) : List EntryRow :=
  tables.entries.filter fun row => row.split.same split

namespace Store

open Json (Value Fields)

def inOrder (rows : List EntryRow) : List EntryRow :=
  rows.mergeSort fun a b => a.position.atMost b.position

theorem inOrder_perm (rows : List EntryRow) : (inOrder rows).Perm rows :=
  List.mergeSort_perm rows _

theorem entriesOf_eq (tables : Tables) (split : Cell) :
    tables.entriesOf split = inOrder (tables.rowsOf split) := rfl

/-- The positions are exactly those below the load, each once. -/
def AreExactly (rows : List EntryRow) (load : Value) : Prop :=
  ∃ n : Nat, load = .int n ∧ rows.length = n ∧
    ∀ place < n, ∃ row ∈ rows, row.position.same (.ofInt place) = true

theorem inOrder_map {rowAt : Nat → EntryRow} {places : List Nat}
    (placed : ∀ place ∈ places, (rowAt place).position.same (.ofInt place) = true) :
    inOrder (places.map rowAt) = (places.mergeSort fun a b => decide (a ≤ b)).map rowAt := by
  refine (List.map_mergeSort fun a first b second => ?_).symm
  rw [Cell.atMost_of_same (placed a first) (placed b second)]
  exact decide_eq_decide.mpr Int.ofNat_le.symm

theorem mergeSort_range_perm {places : List Nat} {n : Nat} (perm : (List.range n).Perm places) :
    (places.mergeSort fun a b => decide (a ≤ b)) = List.range n := by
  have sorted : (places.mergeSort fun a b => decide (a ≤ b)).Pairwise (· ≤ ·) := by
    have ordered : (places.mergeSort fun a b => decide (a ≤ b)).Pairwise fun a b =>
        decide (a ≤ b) = true := by
      refine List.pairwise_mergeSort ?_ ?_ places
      all_goals
        intros
        simp_all
        omega
    simpa using ordered
  have rearranged := (List.mergeSort_perm places fun a b => decide (a ≤ b)).trans perm.symm
  exact rearranged.eq_of_pairwise (fun a b _ _ => Nat.le_antisymm) sorted List.pairwise_le_range

/-- Rows at two places differ, so as many rows as places are the rows at the places. -/
theorem AreExactly.exists_perm {rows : List EntryRow} {n : Nat} (exact : AreExactly rows (.int n)) :
    ∃ rowAt : Nat → EntryRow, ((List.range n).map rowAt).Perm rows ∧
      ∀ place < n, rowAt place ∈ rows ∧ (rowAt place).position.same (.ofInt place) = true := by
  obtain ⟨m, same, count, covered⟩ := exact
  obtain rfl : n = m := by simpa using same
  have each : ∀ place, ∃ row, place < n →
      row ∈ rows ∧ row.position.same (.ofInt place) = true := by
    intro place
    by_cases inside : place < n
    · obtain ⟨row, present, placed⟩ := covered place inside
      exact ⟨row, fun _ => ⟨present, placed⟩⟩
    · exact ⟨⟨.ofInt 0, .ofInt 0, ""⟩, fun below => absurd below inside⟩
  choose rowAt placed using each
  have once : ((List.range n).map rowAt).Nodup := by
    refine List.Nodup.map_on ?_ List.nodup_range
    intro a first b second same
    have left := (placed a (List.mem_range.mp first)).2
    have right := (placed b (List.mem_range.mp second)).2
    rw [← same] at right
    exact Int.ofNat_inj.mp (Cell.eq_of_same left right)
  have inside : (List.range n).map rowAt ⊆ rows := by
    intro row present
    obtain ⟨place, below, rfl⟩ := List.mem_map.mp present
    exact (placed place (List.mem_range.mp below)).1
  exact ⟨rowAt, (List.subperm_of_subset once inside).perm_of_length_le (by simp [count]), placed⟩

theorem inOrder_of_perm {rowAt : Nat → EntryRow} {rows : List EntryRow} {n : Nat}
    (perm : ((List.range n).map rowAt).Perm rows)
    (placed : ∀ place < n, (rowAt place).position.same (.ofInt place) = true) :
    inOrder rows = (List.range n).map rowAt := by
  have beside : (List.range n).Forall₂ (fun place row => rowAt place = row)
      ((List.range n).map rowAt) := by simp
  obtain ⟨places, moved, along⟩ := Lists.exists_perm_beside beside perm
  have rows_eq : places.map rowAt = rows.map id := Lists.map_eq_map along fun _ _ same => same
  rw [← List.map_id rows, ← rows_eq, inOrder_map, mergeSort_range_perm moved]
  intro place present
  exact placed place (List.mem_range.mp (moved.mem_iff.mpr present))

def IsRecordText (text : String) : Prop := ∃ record, Json.read text = .ok (.obj record)

theorem AreRecords.texts {position : Nat} {rows : List EntryRow} {records : List Fields}
    (are : AreRecords position rows records) :
    rows.Forall₂ (fun row record => Json.read row.text = .ok (.obj record)) records := by
  induction are with
  | nil => exact .nil
  | cons _ read _ ih => exact .cons read ih

theorem AreRecords.length_eq {position : Nat} {rows : List EntryRow} {records : List Fields}
    (are : AreRecords position rows records) : rows.length = records.length :=
  are.texts.length_eq

theorem AreRecords.covered {position : Nat} {rows : List EntryRow} {records : List Fields}
    (are : AreRecords position rows records) :
    ∀ i < rows.length, ∃ row ∈ rows, row.position.same (.ofInt (position + i : Nat)) = true := by
  induction are with
  | nil => simp
  | @cons position row rows record records placed _ _ ih =>
    intro i below
    cases i with
    | zero => exact ⟨row, List.mem_cons_self, placed⟩
    | succ i =>
      obtain ⟨later, present, placed⟩ := ih i (Nat.lt_of_succ_lt_succ below)
      rw [Nat.succ_add_eq_add_succ] at placed
      exact ⟨later, List.mem_cons_of_mem _ present, placed⟩

theorem areRecords_range {rowAt : Nat → EntryRow} (start n : Nat)
    (placed : ∀ place, start ≤ place → place < start + n →
      (rowAt place).position.same (.ofInt place) = true ∧ IsRecordText (rowAt place).text) :
    ∃ records, AreRecords start ((List.range' start n).map rowAt) records := by
  induction n generalizing start with
  | zero => exact ⟨[], .nil start⟩
  | succ n ih =>
    obtain ⟨records, others⟩ := ih (start + 1) fun place after before =>
      placed place (by omega) (by omega)
    obtain ⟨here, record, read⟩ := placed start (Nat.le_refl start) (by omega)
    exact ⟨record :: records, .cons here read others⟩

theorem exists_areRecords {rows : List EntryRow} {n : Nat} (exact : AreExactly rows (.int n))
    (texts : ∀ row ∈ rows, IsRecordText row.text) :
    ∃ records, AreRecords 0 (inOrder rows) records ∧ records.length = n := by
  obtain ⟨rowAt, perm, placed⟩ := exact.exists_perm
  have sorted := inOrder_of_perm perm fun place below => (placed place below).2
  obtain ⟨records, are⟩ := areRecords_range 0 n fun place _ below =>
    ⟨(placed place (by omega)).2, texts _ (placed place (by omega)).1⟩
  rw [← List.range_eq_range', ← sorted] at are
  refine ⟨records, are, ?_⟩
  rw [← are.length_eq, sorted, List.length_map, List.length_range]

theorem areExactly_of_areRecords {rows : List EntryRow} {records : List Fields}
    (are : AreRecords 0 (inOrder rows) records) :
    AreExactly rows (.int records.length) ∧ ∀ row ∈ rows, IsRecordText row.text := by
  have perm := inOrder_perm rows
  have count : rows.length = records.length := by rw [← are.length_eq, perm.length_eq]
  constructor
  · refine ⟨records.length, rfl, count, fun place below => ?_⟩
    obtain ⟨row, present, placed⟩ := are.covered place (by rwa [are.length_eq])
    rw [Nat.zero_add] at placed
    exact ⟨row, perm.mem_iff.mp present, placed⟩
  · have each : ∀ (row : EntryRow) (record : Fields),
        Json.read row.text = .ok (.obj record) → IsRecordText row.text :=
      fun _ record read => ⟨record, read⟩
    exact fun row present => Lists.forall_left are.texts each row (perm.mem_iff.mpr present)

end Store
end HarvestPlan
