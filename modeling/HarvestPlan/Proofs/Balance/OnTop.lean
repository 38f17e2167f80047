import Mathlib.Data.List.Perm.Basic
import HarvestPlan.Proofs.Beside
import HarvestPlan.Proofs.Balance.Dealt
import HarvestPlan.Proofs.Order.Heap

open HarvestPlan.Order

namespace HarvestPlan.Balance

theorem index_of_find {open_ : List Split} {split other : Split}
    (found : open_.find? (fun other => other.index = split.index) = some other) :
    other.index = split.index := by
  simpa using List.find?_some found

theorem leftInOrder_inOrder (count : Nat) (open_ : List Split) :
    InOrder (leftInOrder count open_) := by
  have within : ∀ splits : List Split,
      ((splits.filterMap fun split => open_.find? fun other => other.index = split.index).map
        (·.index)).Sublist (splits.map (·.index)) := by
    intro splits
    induction splits with
    | nil => exact .slnil
    | cons split rest ih =>
      rw [List.filterMap_cons]
      split
      · exact ih.cons _
      · rename_i other found
        rw [List.map_cons, List.map_cons, index_of_find found]
        exact ih.cons_cons _
  exact List.Pairwise.sublist (within _) (inOrder_start count)

theorem leftInOrder_perm {count : Nat} {open_ : List Split} (once : (open_.map (·.index)).Nodup)
    (known : ∀ split ∈ open_, ∃ i < count, split.index = .int i) :
    (leftInOrder count open_).Perm open_ := by
  -- As no index occurs twice on either side, it is enough that the same splits do.
  refine (List.perm_ext_iff_of_nodup (leftInOrder_inOrder count open_).nodup.of_map once.of_map).mpr ?_
  intro other
  rw [leftInOrder, List.mem_filterMap]
  constructor
  · rintro ⟨split, -, found⟩
    exact List.mem_of_find?_eq_some found
  · intro present
    obtain ⟨i, small, same⟩ := known other present
    refine ⟨.empty (.int i), List.mem_map_of_mem (List.mem_range.mpr small), ?_⟩
    obtain ⟨found, here⟩ : ∃ found, open_.find? (fun other => other.index = .int i) = some found := by
      rw [← Option.isSome_iff_exists, List.find?_isSome]
      exact ⟨other, present, by simpa using same⟩
    have number : found.index = .int i := by simpa using List.find?_some here
    have index := number.trans same.symm
    rw [← List.inj_on_of_nodup_map once (List.mem_of_find?_eq_some here) present index]
    exact here

theorem leftInOrder_eq {count : Nat} {held splits : List Split} (same : held.Perm splits)
    (ordered : InOrder splits) (known : ∀ split ∈ splits, ∃ i < count, split.index = .int i) :
    leftInOrder count held = splits := by
  have once : (held.map (·.index)).Nodup := (same.map _).nodup_iff.mpr ordered.nodup
  have perm : (leftInOrder count held).Perm splits :=
    (leftInOrder_perm once fun split present => known split (same.mem_iff.mp present)).trans same
  refine List.Perm.eq_of_pairwise ?_ (List.pairwise_map.mp (leftInOrder_inOrder count held))
    (List.pairwise_map.mp ordered) perm
  rintro a b - - ⟨i, j, index, otherIndex, less⟩ ⟨k, l, otherLower, upper, greater⟩
  have first := index.symm.trans upper
  have second := otherIndex.symm.trans otherLower
  rw [Json.Value.int.injEq, Nat.cast_inj] at first second
  omega

def heapKey (split : Split) : (Nat ×ₗ Int) ×ₗ Int := toLex (split.key, heapFirst.positionOf split)

theorem heapFirst_isKeyed {splits : List Split} (counted : ∀ split ∈ splits, split.IsCounted) :
    Heap.IsKeyed heapFirst heapKey splits := by
  intro a first b second
  have lighter := lighter_iff (counted a first) (counted b second)
  have same : (a.size == b.size && a.totalBytes.same b.totalBytes) = true ↔ a.key = b.key := by
    simp [Split.key, (counted a first).total, (counted b second).total, Quantity.same_int]
  rw [Bool.eq_iff_iff, decide_eq_true_eq, heapKey, heapKey, Prod.Lex.toLex_lt_toLex, heapFirst,
    Bool.or_eq_true, lighter, Bool.and_eq_true, same, decide_eq_true_eq]

theorem positionOf_index {split : Split} {i : Nat} (index : split.index = .int i) :
    heapFirst.positionOf split = i := by
  rw [heapFirst.positionOf, index]
  rfl

theorem FirstLightest.heapKey_lt {before after : List Split} {split other : Split}
    (first : FirstLightest split before after) (ordered : InOrder (before ++ split :: after))
    (present : other ∈ before ++ after) : heapKey split < heapKey other := by
  rw [heapKey, heapKey, Prod.Lex.toLex_lt_toLex]
  rcases List.mem_append.mp present with present | present
  · exact .inl (first.before other present)
  · obtain ⟨-, ordered, -⟩ := List.pairwise_append.mp (List.pairwise_map.mp ordered)
    obtain ⟨i, j, index, otherIndex, less⟩ := (List.pairwise_cons.mp ordered).1 other present
    refine (first.after other present).lt_or_eq.imp_right fun same => ⟨same, ?_⟩
    have lower : (i : Int) < j := by omega
    rwa [positionOf_index index, positionOf_index otherIndex]

structure IsHeapOf (cap : Int) (count : Nat) (state : State) (heap : HeapState) : Prop where
  opened : heap.opened.toList.Perm state.opened
  finished : heap.finished = state.finished
  heaped : Heap.IsOrdered (Heap.keyAt heapKey heap.opened)
  ready : state.IsOpen cap
  ordered : InOrder state.opened
  known : ∀ split ∈ state.opened, ∃ i < count, split.index = .int i

section Steps

variable {cap : Int} {count : Nat} {state next : State} {heap : HeapState} {member : Member}

theorem IsHeapOf.keyed (held : IsHeapOf cap count state heap) :
    Heap.IsKeyed heapFirst heapKey heap.opened.toList :=
  heapFirst_isKeyed fun split present => held.ready.counted split (held.opened.mem_iff.mp present)

/-- The split on top is the first lightest. -/
theorem IsHeapOf.top (held : IsHeapOf cap count state heap) {before after : List Split} {split : Split}
    (opened : state.opened = before ++ split :: after) (first : FirstLightest split before after) :
    ∃ left, heap.opened.pop? heapFirst = some (split, left) ∧ left.toList.Perm (before ++ after) ∧
      Heap.IsOrdered (Heap.keyAt heapKey left) := by
  have same : heap.opened.toList.Perm (split :: (before ++ after)) :=
    (opened ▸ held.opened).trans List.perm_middle
  have filled : 0 < heap.opened.size := by
    rw [← Array.length_toList, same.length_eq]
    simp
  obtain ⟨top, left, popped⟩ : ∃ top left, heap.opened.pop? heapFirst = some (top, left) :=
    Heap.exists_pop? filled
  have perm := Heap.pop?_perm popped
  have least : heapKey top ≤ heapKey split :=
    Heap.pop?_le held.heaped popped split (same.mem_iff.mpr List.mem_cons_self)
  obtain rfl : top = split := by
    rcases List.mem_cons.mp (same.mem_iff.mp (perm.mem_iff.mp List.mem_cons_self)) with own | other
    · exact own
    · exact absurd least (not_le.mpr (first.heapKey_lt (opened ▸ held.ordered) other))
  exact ⟨left, popped, (perm.trans same).cons_inv, Heap.pop?_isOrdered held.keyed held.heaped popped⟩

theorem IsHeapOf.step (held : IsHeapOf cap count state heap) (whole : member.IsWhole)
    (step : Placed cap member state next) :
    ∃ heap', placeOnTop cap heap member = .ok heap' ∧ IsHeapOf cap count next heap' := by
  have ready := step.isOpen held.ready
  have ordered := step.inOrder held.ordered
  obtain ⟨_, _, _, _, turn⟩ := step.turn
  have known : ∀ split ∈ next.opened, ∃ i < count, split.index = .int i := by
    intro split present
    obtain ⟨old, oldPresent, same⟩ :=
      List.mem_map.mp (turn.indices.subset (List.mem_map_of_mem present))
    exact same ▸ held.known old oldPresent
  cases step with
  | @kept before after finished split first below =>
    obtain ⟨left, popped, perm, heaped⟩ := held.top rfl first
    have present : split ∈ before ++ split :: after := mem_middle.mpr (.inl rfl)
    have added := (held.ready.counted split present).added (held.ready.opened split present) whole
    have pushed : (left.push heapFirst (split.taking member)).toList.Perm
        (before ++ split.taking member :: after) :=
      ((Heap.push_perm left _).trans (perm.cons _)).trans List.perm_middle.symm
    have keyed : Heap.IsKeyed heapFirst heapKey (split.taking member :: left.toList) :=
      heapFirst_isKeyed fun other there => ready.counted other
        (List.perm_middle.mem_iff.mpr ((perm.cons _).mem_iff.mp there))
    refine ⟨⟨left.push heapFirst (split.taking member), heap.finished⟩, ?_, pushed, held.finished,
      Heap.push_isOrdered keyed heaped, ready, ordered, known⟩
    simp only [placeOnTop, popped, added, bind, Except.bind, pure, Except.pure]
    rw [if_neg (by rw [Split.size_taking]; omega)]
  | @closed before after finished split first full =>
    obtain ⟨left, popped, perm, heaped⟩ := held.top rfl first
    have present : split ∈ before ++ split :: after := mem_middle.mpr (.inl rfl)
    have added := (held.ready.counted split present).added (held.ready.opened split present) whole
    have finishes := congrArg (· ++ [(split.taking member).finalize]) held.finished
    refine ⟨⟨left, heap.finished ++ [(split.taking member).finalize]⟩, ?_, perm, finishes, heaped,
      ready, ordered, known⟩
    simp only [placeOnTop, popped, added, bind, Except.bind, pure, Except.pure]
    rw [if_pos (by rw [Split.size_taking]; omega)]

theorem IsHeapOf.beside (held : IsHeapOf cap count state heap) (whole : member.IsWhole) :
    Outcome.Beside (IsHeapOf cap count) (place cap state member) (placeOnTop cap heap member) := by
  by_cases room : state.opened = []
  · have empty : heap.opened = #[] := Array.toList_eq_nil_iff.mp (List.perm_nil.mp (room ▸ held.opened))
    rw [place, room, placeOnTop, empty]
    exact .error _
  · obtain ⟨next, placed, step⟩ := place_of_whole held.ready whole room
    obtain ⟨heap', onTop, held'⟩ := held.step whole step
    rw [placed, onTop]
    exact .ok held'

end Steps

theorem isHeapOf_start {cap : Int} (positive : 1 ≤ cap) (count : Nat) :
    IsHeapOf cap count (State.start count) ⟨(unfilled count).toArray, []⟩ where
  opened := .refl _
  finished := rfl
  heaped := by
    refine Heap.isOrdered_of_pairwise ?_
    refine List.pairwise_map.mpr (List.pairwise_lt_range.imp fun {i j} less => ?_)
    have lower : (i : Int) ≤ j := by omega
    exact Prod.Lex.toLex_le_toLex.mpr (.inr ⟨rfl, lower⟩)
  ready := (dealt_start positive count).ready
  ordered := inOrder_start count
  known := by
    intro split present
    obtain ⟨i, small, rfl⟩ := List.mem_map.mp present
    exact ⟨i, List.mem_range.mp small, rfl⟩

/-- The heap deals whole members out as the search for the lightest split does. -/
theorem dealFromTop_eq_deal {members : List Member} (whole : ∀ member ∈ members, member.IsWhole)
    {cap : Int} (positive : 1 ≤ cap) (count : Nat) :
    dealFromTop cap count members = deal cap count members := by
  have runs : Outcome.Beside (IsHeapOf cap count) (members.foldlM (place cap) (State.start count))
      (members.foldlM (placeOnTop cap) ⟨(unfilled count).toArray, []⟩) := by
    have alike : members.Forall₂ (fun member other => member.IsWhole ∧ member = other) members :=
      List.forall₂_same.mpr fun member present => ⟨whole member present, rfl⟩
    refine Outcome.Beside.foldlM₂ ?_ alike (isHeapOf_start positive count)
    rintro state heap member _ held ⟨weighs, rfl⟩
    exact held.beside weighs
  refine (runs.bind fun state heap held => ?_).eq
  rw [leftInOrder_eq held.opened held.ordered held.known, held.finished]
  exact .ok rfl

theorem plan_of_whole {members : List Member} (whole : ∀ member ∈ members, member.IsWhole) (cap : Int) :
    Balance.plan members cap = numSplits members.length cap >>= fun count =>
      if count = 0 then pure ⟨[], .int cap⟩
      else (⟨·, .int cap⟩) <$> deal cap count (sorted members) := by
  unfold Balance.plan
  by_cases positive : 1 ≤ cap
  · refine bind_congr fun count => ?_
    have sortedWhole : ∀ member ∈ sorted members, member.IsWhole :=
      fun member present => whole member ((sorted_perm members).mem_iff.mp present)
    rw [sort_of_whole whole, ← dealFromTop_eq_deal sortedWhole positive]
    rfl
  · have refused : numSplits members.length cap = .error (.refused (.notPositive (.int cap))) :=
      if_pos (by omega)
    rw [refused]
    rfl

end HarvestPlan.Balance
