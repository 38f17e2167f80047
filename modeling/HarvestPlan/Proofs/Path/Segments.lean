import HarvestPlan.Text.Segments

namespace HarvestPlan.Text

theorem cut_ne_nil {α : Type} [DecidableEq α] (separator : α) (text : List α) :
    cut separator text ≠ [] := by
  cases text with
  | nil => simp [cut]
  | cons c cs =>
    unfold cut
    by_cases here : c = separator
    · simp [here]
    · cases below : cut separator cs <;> simp [here]

theorem notMem_of_mem_cut {α : Type} [DecidableEq α] {separator : α} {text segment : List α}
    (present : segment ∈ cut separator text) : separator ∉ segment := by
  induction text generalizing segment with
  | nil =>
    have empty : segment = [] := by simpa [cut] using present
    simp [empty]
  | cons c cs ih =>
    unfold cut at present
    by_cases here : c = separator
    · simp only [here, if_true] at present
      rcases List.mem_cons.mp present with rfl | present
      · exact List.not_mem_nil
      · exact ih present
    · cases below : cut separator cs with
      | nil => exact absurd below (cut_ne_nil separator cs)
      | cons first others =>
        simp only [here, if_false, below] at present
        rcases List.mem_cons.mp present with rfl | present
        · have free : separator ∉ first := ih (by simp [below])
          intro held
          rcases List.mem_cons.mp held with same | held
          · exact here same.symm
          · exact free held
        · exact ih (by simp [below, present])

theorem exists_mem_cut {α : Type} [DecidableEq α] {separator c : α} {text : List α}
    (present : c ∈ text) (other : c ≠ separator) : ∃ segment ∈ cut separator text, c ∈ segment := by
  induction text with
  | nil => cases present
  | cons d rest ih =>
    unfold cut
    by_cases here : d = separator
    · have held : c ∈ rest := (List.mem_cons.mp present).resolve_left fun same => other (same ▸ here)
      obtain ⟨segment, kept, inside⟩ := ih held
      exact ⟨segment, by simp [here, kept], inside⟩
    · cases below : cut separator rest with
      | nil => exact absurd below (cut_ne_nil separator rest)
      | cons first others =>
        simp only [here, if_false]
        rcases List.mem_cons.mp present with rfl | held
        · exact ⟨c :: first, by simp, by simp⟩
        · obtain ⟨segment, kept, inside⟩ := ih held
          rw [below] at kept
          rcases List.mem_cons.mp kept with rfl | kept
          · exact ⟨d :: segment, by simp, List.mem_cons_of_mem _ inside⟩
          · exact ⟨segment, List.mem_cons_of_mem _ kept, inside⟩

theorem cut_of_notMem {α : Type} [DecidableEq α] {separator : α} {segment : List α}
    (free : separator ∉ segment) : cut separator segment = [segment] := by
  induction segment with
  | nil => rfl
  | cons c cs ih =>
    have other : c ≠ separator := fun same => free (by simp [same])
    have rest := ih fun held => free (List.mem_cons_of_mem _ held)
    simp [cut, other, rest]

theorem cut_append {α : Type} [DecidableEq α] (separator : α) (before after : List α) :
    cut separator (before ++ separator :: after) = cut separator before ++ cut separator after := by
  induction before with
  | nil => simp [cut]
  | cons c cs ih =>
    by_cases here : c = separator
    · simp [cut, here, ih]
    · cases below : cut separator cs with
      | nil => exact absurd below (cut_ne_nil separator cs)
      | cons first others => simp [cut, here, ih, below]

theorem join_cons {separator : Char} {segment : List Char} {segments : List (List Char)}
    (more : segments ≠ []) :
    join separator (segment :: segments) = segment ++ separator :: join separator segments := by
  cases segments with
  | nil => exact absurd rfl more
  | cons next rest => rfl

theorem join_eq_intercalate (separator : Char) (segments : List (List Char)) :
    join separator segments = [separator].intercalate segments := by
  induction segments with
  | nil => rfl
  | cons segment rest ih =>
    by_cases last : rest = []
    · subst last
      exact List.intercalate_singleton.symm
    · rw [join_cons last, List.intercalate_cons_of_ne_nil last, ih]
      simp

theorem cut_join {separator : Char} {segments : List (List Char)} (some : segments ≠ [])
    (free : ∀ segment ∈ segments, separator ∉ segment) :
    cut separator (join separator segments) = segments := by
  induction segments with
  | nil => exact absurd rfl some
  | cons segment rest ih =>
    have first := free segment (by simp)
    by_cases last : rest = []
    · subst last
      exact cut_of_notMem first
    · rw [join_cons last, cut_append, cut_of_notMem first,
        ih last fun other present => free other (List.mem_cons_of_mem _ present)]
      rfl

theorem join_cut (separator : Char) (text : List Char) :
    join separator (cut separator text) = text := by
  induction text with
  | nil => rfl
  | cons c cs ih =>
    have some_ := cut_ne_nil separator cs
    unfold cut
    by_cases here : c = separator
    · rw [if_pos here, join_cons some_, ih, here, List.nil_append]
    · rw [if_neg here]
      cases below : cut separator cs with
      | nil => exact absurd below some_
      | cons first others =>
        rw [below] at ih
        cases others with
        | nil => exact congrArg (c :: ·) ih
        | cons next rest => exact congrArg (c :: ·) ih

theorem mem_join {separator c : Char} {segment : List Char} {segments : List (List Char)}
    (present : segment ∈ segments) (inside : c ∈ segment) : c ∈ join separator segments := by
  induction segments with
  | nil => cases present
  | cons first rest ih =>
    rcases List.mem_cons.mp present with rfl | present
    · by_cases alone : rest = []
      · rwa [alone]
      · rw [join_cons alone]
        exact List.mem_append_left _ inside
    · have more : rest ≠ [] := List.ne_nil_of_mem present
      rw [join_cons more]
      exact List.mem_append_right _ (List.mem_cons_of_mem _ (ih present))

theorem join_append {separator : Char} {segments : List (List Char)} (some : segments ≠ [])
    (last : List Char) :
    join separator (segments ++ [last]) = join separator segments ++ separator :: last := by
  induction segments with
  | nil => exact absurd rfl some
  | cons segment rest ih =>
    by_cases alone : rest = []
    · subst alone
      rfl
    · rw [List.cons_append, join_cons (by simp), ih alone, join_cons alone, List.append_assoc,
        List.cons_append]

theorem join_isPrefix (separator : Char) (segments rest : List (List Char)) :
    join separator segments <+: join separator (segments ++ rest) := by
  induction segments with
  | nil => exact List.nil_prefix
  | cons segment others ih =>
    by_cases alone : others = []
    · subst alone
      cases rest with
      | nil => exact List.prefix_rfl
      | cons next more => exact ⟨separator :: join separator (next :: more), rfl⟩
    · rw [List.cons_append, join_cons alone, join_cons (by simp [alone]),
        List.prefix_append_right_inj, List.prefix_cons_inj]
      exact ih

theorem cutFirst_append {separator : Char} {before : List Char} (free : separator ∉ before)
    (after : List Char) : cutFirst? separator (before ++ separator :: after) = some (before, after) := by
  induction before with
  | nil => simp [cutFirst?]
  | cons c cs ih =>
    have other : c ≠ separator := fun same => free (by simp [same])
    have below := ih fun held => free (List.mem_cons_of_mem _ held)
    simp [cutFirst?, other, below]

theorem cutFirst_some {separator : Char} {text before after : List Char}
    (found : cutFirst? separator text = some (before, after)) :
    text = before ++ separator :: after ∧ separator ∉ before := by
  induction text generalizing before with
  | nil => cases found
  | cons c cs ih =>
    unfold cutFirst? at found
    split at found
    · rename_i here
      cases found
      simp [here]
    · rename_i other
      obtain ⟨⟨start, rest⟩, below, same⟩ := Option.map_eq_some_iff.mp found
      cases same
      obtain ⟨shape, free⟩ := ih below
      refine ⟨by rw [shape, List.cons_append], ?_⟩
      rw [List.mem_cons]
      exact fun held => held.elim (fun same => other same.symm) free

theorem cutLast_append {separator : Char} {after : List Char} (free : separator ∉ after)
    (before : List Char) : cutLast? separator (before ++ separator :: after) = some (before, after) := by
  have reversed : (before ++ separator :: after).reverse =
      after.reverse ++ separator :: before.reverse := by simp
  have first : separator ∉ after.reverse := by simpa using free
  simp [cutLast?, reversed, cutFirst_append first]

theorem cutLast_some {separator : Char} {text before after : List Char}
    (found : cutLast? separator text = some (before, after)) :
    text = before ++ separator :: after ∧ separator ∉ after := by
  obtain ⟨⟨first, rest⟩, cut, same⟩ := Option.map_eq_some_iff.mp found
  cases same
  obtain ⟨shape, free⟩ := cutFirst_some cut
  refine ⟨?_, by simpa using free⟩
  rw [← List.reverse_reverse text, shape]
  simp

end HarvestPlan.Text
