import HarvestPlan.Proofs.Json.Flat

namespace HarvestPlan.Json

/-- So many arrays, none of which is closed. -/
def unclosed (levels : Nat) : List Char := List.replicate levels '['

theorem skipSpace_bracket (cs : List Char) : skipSpace ('[' :: cs) = '[' :: cs :=
  (skipSpace_cons rfl cs).1

theorem readValue_bracket (fuel room : Nat) (cs : List Char) :
    readValue (fuel + 1) (room + 1) ('[' :: '[' :: cs) =
      (readItems fuel room ('[' :: cs)).map fun (values, left) => (.arr values, left) := by
  rw [readValue.eq_def]
  simp only [skipSpace_bracket]
  split <;> simp_all

theorem readValue_inside {fuel room : Nat} {cs : List Char} {fault : Fault}
    (inside : readValue fuel room ('[' :: cs) = .error fault) :
    readValue (fuel + 2) (room + 1) ('[' :: '[' :: cs) = .error fault := by
  rw [readValue_bracket, readItems.eq_def]
  simp only [inside]
  rfl

theorem readValue_full {fuel room : Nat} (enough : 2 * room < fuel) (rest : List Char) :
    readValue fuel room (unclosed (room + 1) ++ rest) = .error (.tooDeep .array) := by
  -- By induction on the room: a level takes one unit of it, and two of the fuel.
  induction room generalizing fuel with
  | zero =>
    obtain ⟨fuel, rfl⟩ : ∃ less, fuel = less + 1 := ⟨fuel - 1, by omega⟩
    rw [readValue.eq_def]
    rfl
  | succ room ih =>
    obtain ⟨fuel, rfl⟩ : ∃ less, fuel = less + 2 := ⟨fuel - 2, by omega⟩
    exact readValue_inside (ih (by omega))

theorem readValue_tooDeep {fuel room levels : Nat} (deep : room ≤ levels)
    (enough : 2 * room < fuel) :
    readValue fuel room (unclosed (levels + 1)) = .error (.tooDeep .array) := by
  obtain ⟨more, rfl⟩ := Nat.exists_eq_add_of_le deep
  have outer : unclosed (room + more + 1) = unclosed (room + 1) ++ unclosed more := by
    rw [unclosed, unclosed, unclosed, List.replicate_append_replicate, Nat.add_right_comm]
  rw [outer]
  exact readValue_full enough (unclosed more)

theorem readItems_nil (fuel room : Nat) : readItems fuel room [] = .error (.found .value 0) := by
  rw [readItems.eq_def]
  cases fuel with
  | zero => rfl
  | succ fuel =>
    simp only
    rw [readValue.eq_def]
    cases fuel <;> rfl

theorem readValue_unclosed {fuel room levels : Nat} (deep : levels < room)
    (enough : 2 * levels < fuel) :
    readValue fuel room (unclosed (levels + 1)) = .error (.found .value 0) := by
  induction levels generalizing fuel room with
  | zero =>
    obtain ⟨fuel, rfl⟩ : ∃ less, fuel = less + 1 := ⟨fuel - 1, by omega⟩
    obtain ⟨room, rfl⟩ : ∃ less, room = less + 1 := ⟨room - 1, by omega⟩
    have item := readItems_nil fuel room
    have open_ : readValue (fuel + 1) (room + 1) ['['] =
        (readItems fuel room []).map fun (values, left) => (.arr values, left) := by
      rw [readValue.eq_def]
      rfl
    exact open_.trans (by rw [item]; rfl)
  | succ levels ih =>
    obtain ⟨fuel, rfl⟩ : ∃ less, fuel = less + 2 := ⟨fuel - 2, by omega⟩
    obtain ⟨room, rfl⟩ : ∃ less, room = less + 1 := ⟨room - 1, by omega⟩
    exact readValue_inside (ih (by omega) (by omega))

/-- What is too deep for the reader of whole texts is no JSON for a reader with room for it. -/
theorem read_unclosed {levels : Nat} (deep : deepest ≤ levels) :
    read (String.ofList (unclosed (levels + 1))) = .error (.tooDeep .array) ∧
      readValue (2 * levels + 1) (levels + 1) (unclosed (levels + 1)) =
        .error (.found .value 0) := by
  have skipped : skipSpace (unclosed (levels + 1)) = unclosed (levels + 1) := skipSpace_bracket _
  have unmarked : (unclosed (levels + 1)).head? ≠ some '\ufeff' := by
    simp [unclosed, List.replicate_succ]
  have enough : 2 * deepest < 2 * (unclosed (levels + 1)).length + 1 := by
    rw [unclosed, List.length_replicate]
    omega
  have stopped := readValue_tooDeep deep enough
  constructor
  · rw [read, String.toList_ofList, readText, if_neg unmarked]
    simp only [skipped, stopped]
    rfl
  · exact readValue_unclosed (Nat.lt_succ_self levels) (Nat.lt_succ_self (2 * levels))

end HarvestPlan.Json
