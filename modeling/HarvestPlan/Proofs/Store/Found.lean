import HarvestPlan.Proofs.Store.Saved

namespace HarvestPlan.Store

theorem Holds.count {index : Nat} {splits : List Split} {rows : List SplitRow}
    {texts : List (List String)} (held : Holds index splits rows texts) :
    rows.length = splits.length := by
  rw [← held.rows.length_eq, List.length_zipIdx]

theorem Holds.find {start i : Nat} {splits : List Split} {rows : List SplitRow}
    {texts : List (List String)} (held : Holds start splits rows texts) {split : Split}
    (present : splits[i]? = some split) :
    ∃ row lines, (rows.find? fun row => row.index == ((start + i : Nat) : Int)) = some row ∧
      splitRow (start + i) split = .ok row ∧ texts[i]? = some lines ∧ AreTextsOf split lines := by
  induction splits generalizing start i rows texts with
  | nil => simp at present
  | cons head rest ih =>
    obtain ⟨rows, texts⟩ := held
    rw [List.zipIdx_cons] at rows
    cases rows with
    | @cons _ row _ rows made others =>
      cases texts with
      | @cons _ lines _ texts known unknown =>
        have own : row.index = start := by
          obtain ⟨-, _, _, _, -, -, -, rfl⟩ := splitRow_ok made
          rfl
        cases i with
        | zero =>
          cases present
          refine ⟨row, lines, ?_, made, rfl, known⟩
          rw [List.find?_cons_of_pos]
          simpa using own
        | succ i =>
          have later : rest[i]? = some split := present
          obtain ⟨found, lines, here, made, listed, written⟩ := ih ⟨others, unknown⟩ later
          have shift : start + 1 + i = start + (i + 1) := by omega
          rw [shift] at here made
          refine ⟨found, lines, ?_, made, listed, written⟩
          rw [List.find?_cons_of_neg]
          · exact here
          · rw [own, beq_iff_eq]
            omega

theorem filter_entryRows (index position : Nat) (key : Int) (texts : List String) :
    (entryRows index position texts).filter (fun row => row.split.same (.ofInt key)) =
      if (index : Int) = key then entryRows index position texts else [] := by
  induction texts generalizing position with
  | nil => simp [entryRows]
  | cons text rest ih =>
    by_cases same : (index : Int) = key
    · simpa [entryRows, Cell.same_ofInt, same] using ih (position + 1)
    · simpa [entryRows, Cell.same_ofInt, same] using ih (position + 1)

theorem filter_planRows_before {start : Nat} {key : Int} (before : key < start)
    (texts : List (List String)) :
    (planRows start texts).filter (fun row => row.split.same (.ofInt key)) = [] := by
  induction texts generalizing start with
  | nil => rfl
  | cons lines rest ih =>
    rw [planRows, List.filter_append, filter_entryRows, ih (by omega), if_neg (by omega)]
    rfl

theorem filter_planRows {start i : Nat} {texts : List (List String)} {lines : List String}
    (present : texts[i]? = some lines) :
    (planRows start texts).filter (fun row => row.split.same (.ofInt ((start + i : Nat) : Int))) =
      entryRows (start + i) 0 lines := by
  induction texts generalizing start i with
  | nil => simp at present
  | cons head rest ih =>
    rw [planRows, List.filter_append, filter_entryRows]
    cases i with
    | zero =>
      cases present
      rw [filter_planRows_before (by omega)]
      simp
    | succ i =>
      have later : rest[i]? = some lines := present
      have shift : start + 1 + i = start + (i + 1) := by omega
      rw [if_neg (by omega), List.nil_append, ← shift]
      exact ih later

theorem pairwise_entryRows (index position : Nat) (texts : List String) :
    (∀ row ∈ entryRows index position texts, ∃ n : Nat, position ≤ n ∧ row.position = .ofInt n) ∧
      (entryRows index position texts).Pairwise fun a b => a.position.atMost b.position = true := by
  induction texts generalizing position with
  | nil => simp [entryRows]
  | cons text rest ih =>
    obtain ⟨after, ordered⟩ := ih (position + 1)
    constructor
    · intro row present
      rcases List.mem_cons.mp present with rfl | present
      · exact ⟨position, Nat.le_refl _, rfl⟩
      · obtain ⟨n, later, same⟩ := after row present
        exact ⟨n, by omega, same⟩
    · refine List.pairwise_cons.mpr ⟨?_, ordered⟩
      intro row present
      obtain ⟨n, later, same⟩ := after row present
      rw [same, Cell.atMost_ofInt, decide_eq_true_eq]
      omega

theorem entriesOf_planRows {tables : Tables} {texts : List (List String)}
    (kept : tables.entries = planRows 0 texts) {i : Nat} {lines : List String}
    (present : texts[i]? = some lines) :
    tables.entriesOf (.ofInt i) = entryRows i 0 lines := by
  have chosen := @filter_planRows 0 i texts lines present
  rw [Nat.zero_add] at chosen
  rw [Tables.entriesOf, kept, chosen]
  exact List.mergeSort_of_pairwise (pairwise_entryRows i 0 lines).2

end HarvestPlan.Store
