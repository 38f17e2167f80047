import Mathlib.Data.List.Basic
import Mathlib.Logic.Equiv.Basic
import Mathlib.Order.WithBot
import HarvestPlan.Order.Heap

/-!
A heap keeps its items, whatever the comparison. If it compares keys, the item on top has the least.
-/
namespace HarvestPlan.Order.Heap

variable {α : Type} {less : α → α → Bool}

theorem swapIfInBounds_perm (heap : Heap α) (i j : Nat) :
    (heap.swapIfInBounds i j).Perm heap := by
  rw [Array.swapIfInBounds_def]
  split
  · split
    · exact Array.swap_perm _ _
    · exact .refl _
  · exact .refl _

theorem rise_perm (fuel place : Nat) (heap : Heap α) : (rise less fuel place heap).Perm heap := by
  induction fuel generalizing place heap with
  | zero => exact .refl _
  | succ fuel ih =>
    simp only [rise]
    split
    · exact (ih _ _).trans (swapIfInBounds_perm _ _ _)
    · exact .refl _

theorem sink_perm (fuel place : Nat) (heap : Heap α) : (sink less fuel place heap).2.Perm heap := by
  induction fuel generalizing place heap with
  | zero => exact .refl _
  | succ fuel ih =>
    simp only [sink]
    split
    · exact (ih _ _).trans (swapIfInBounds_perm _ _ _)
    · exact .refl _

theorem push_perm (heap : Heap α) (item : α) :
    (push less heap item).toList.Perm (item :: heap.toList) := by
  have risen : (push less heap item).Perm (Array.push heap item) := rise_perm _ _ _
  have held := risen.toList
  rw [Array.toList_push] at held
  exact held.trans List.perm_append_comm

/-- Items with the last one in the place of the first are the items without the first. -/
theorem replaceTop_perm {heap : Heap α} {top last : α} (first : heap[0]? = some top)
    (final : heap.back? = some last) (more : 1 < heap.size) :
    (top :: (heap.pop.setIfInBounds 0 last).toList).Perm heap.toList := by
  rw [← Array.getElem?_toList] at first
  rw [← Array.getLast?_toList] at final
  rw [← Array.length_toList] at more
  rw [Array.toList_setIfInBounds, Array.toList_pop]
  obtain ⟨before, whole⟩ : ∃ before, heap.toList = before ++ [last] :=
    ⟨_, (List.dropLast_append_getLast? last final).symm⟩
  rw [whole] at first more ⊢
  rw [List.dropLast_concat]
  cases before with
  | nil => simp at more
  | cons item middle =>
    have moved : ([last] ++ middle).Perm (middle ++ [last]) := List.perm_append_comm
    obtain rfl : item = top := Option.some.inj first
    exact moved.cons item

/-- A heap that gives an item up: it was on top, and it was alone or the last item took its place, sank
    and rose. -/
theorem pop?_some {heap left : Heap α} {top : α} (popped : pop? less heap = some (top, left)) :
    heap[0]? = some top ∧ (heap.size = 1 ∧ left = #[] ∨ ∃ last, 1 < heap.size ∧
      heap.back? = some last ∧
      left = rise less heap.pop.size (sink less heap.pop.size 0 (heap.pop.setIfInBounds 0 last)).1
        (sink less heap.pop.size 0 (heap.pop.setIfInBounds 0 last)).2) := by
  unfold pop? at popped
  split at popped
  · rename_i first last firstTop lastBack
    have some_ : 0 < heap.size := (Array.getElem?_eq_some_iff.mp firstTop).1
    dsimp only at popped
    split at popped
    · rename_i alone
      obtain ⟨rfl, rfl⟩ := Prod.mk.inj (Option.some.inj popped)
      have bare := Array.isEmpty_iff.mp alone
      have size := congrArg Array.size bare
      simp only [Array.size_pop, List.size_toArray, List.length_nil] at size
      exact ⟨firstTop, .inl ⟨by omega, bare⟩⟩
    · rename_i more
      obtain ⟨rfl, rfl⟩ := Prod.mk.inj (Option.some.inj popped)
      rw [Array.isEmpty_iff_size_eq_zero, Array.size_pop] at more
      exact ⟨firstTop, .inr ⟨last, by omega, lastBack, rfl⟩⟩
  · cases popped

theorem pop?_perm {heap left : Heap α} {top : α} (popped : pop? less heap = some (top, left)) :
    (top :: left.toList).Perm heap.toList := by
  obtain ⟨first, ⟨alone, rfl⟩ | ⟨last, more, final, rfl⟩⟩ := pop?_some popped
  · obtain ⟨only, rfl⟩ := Array.size_eq_one_iff.mp alone
    cases first
    rfl
  · refine (List.Perm.cons top ?_).trans (replaceTop_perm first final more)
    exact ((rise_perm _ _ _).trans (sink_perm _ _ _)).toList

theorem exists_pop? {heap : Heap α} (some_ : 0 < heap.size) :
    ∃ top left, pop? less heap = some (top, left) := by
  have first : heap[0]? = some heap[0] := Array.getElem?_eq_getElem some_
  have final : heap.back? = some (heap.back some_) := by
    rw [Array.back?_eq_getElem?, Array.getElem?_eq_getElem (by omega)]
    rfl
  simp only [pop?, first, final]
  split <;> exact ⟨_, _, rfl⟩

def above (place : Nat) : Nat := (place - 1) / 2

theorem above_lt {place : Nat} (below : 0 < place) : above place < place := by
  unfold above
  omega

section Keys

variable {κ : Type} [LinearOrder κ] {keys : Nat → κ} {hole : Nat}

def IsOrdered (keys : Nat → κ) : Prop := ∀ place, 0 < place → keys (above place) ≤ keys place

theorem IsOrdered.top_le (ordered : IsOrdered keys) (place : Nat) : keys 0 ≤ keys place := by
  induction place using Nat.strongRecOn with
  | ind place ih =>
    rcases Nat.eq_zero_or_pos place with rfl | below
    · exact le_refl _
    · exact (ih _ (above_lt below)).trans (ordered place below)

/-- In order but for the key at one place, which may be less than those above it. -/
structure IsRising (keys : Nat → κ) (hole : Nat) : Prop where
  apart : ∀ place, 0 < place → place ≠ hole → keys (above place) ≤ keys place
  across : ∀ place, 0 < place → above place = hole → 0 < hole → keys (above hole) ≤ keys place

/-- In order but for the key at one place, which may be in order with none around it. -/
structure IsSinking (keys : Nat → κ) (hole : Nat) : Prop where
  apart : ∀ place, 0 < place → place ≠ hole → above place ≠ hole → keys (above place) ≤ keys place
  across : ∀ place, 0 < place → above place = hole → 0 < hole → keys (above hole) ≤ keys place

theorem IsRising.isOrdered (rising : IsRising keys hole)
    (settled : 0 < hole → keys (above hole) ≤ keys hole) : IsOrdered keys := by
  intro place below
  by_cases here : place = hole
  · subst here
    exact settled below
  · exact rising.apart place below here

theorem IsRising.step (rising : IsRising keys hole) (below : 0 < hole)
    (less : keys hole < keys (above hole)) :
    IsRising (keys ∘ Equiv.swap hole (above hole)) (above hole) := by
  have lower := above_lt below
  constructor
  · intro place positive other
    have up := above_lt positive
    by_cases here : place = hole
    · subst here
      simpa using less.le
    · have own : (Equiv.swap hole (above hole)) place = place := Equiv.swap_apply_of_ne_of_ne here other
      rw [Function.comp_apply, Function.comp_apply, own]
      by_cases under : above place = hole
      · rw [under, Equiv.swap_apply_left]
        exact rising.across place positive under below
      · by_cases beside : above place = above hole
        · rw [beside, Equiv.swap_apply_right]
          exact less.le.trans (beside ▸ rising.apart place positive here)
        · rw [Equiv.swap_apply_of_ne_of_ne under beside]
          exact rising.apart place positive here
  · intro place positive under high
    have up := above_lt positive
    have higher := above_lt high
    have own : (Equiv.swap hole (above hole)) (above (above hole)) = above (above hole) :=
      Equiv.swap_apply_of_ne_of_ne (by omega) (by omega)
    have first : keys (above (above hole)) ≤ keys (above hole) :=
      rising.apart (above hole) high (by omega)
    rw [Function.comp_apply, Function.comp_apply, own]
    by_cases here : place = hole
    · subst here
      rw [Equiv.swap_apply_left]
      exact first
    · rw [Equiv.swap_apply_of_ne_of_ne here (by omega)]
      exact first.trans (under ▸ rising.apart place positive here)

theorem IsSinking.step {lesser : Nat} (sinking : IsSinking keys hole) (positive : 0 < lesser)
    (under : above lesser = hole) (least : ∀ place, 0 < place → above place = hole →
      keys lesser ≤ keys place) :
    IsSinking (keys ∘ Equiv.swap hole lesser) lesser := by
  have lower : hole < lesser := under ▸ above_lt positive
  constructor
  · intro place below other apart
    have up := above_lt below
    by_cases here : place = hole
    · subst here
      have own : (Equiv.swap place lesser) (above place) = above place :=
        Equiv.swap_apply_of_ne_of_ne (by omega) apart
      rw [Function.comp_apply, Function.comp_apply, own, Equiv.swap_apply_left]
      exact sinking.across lesser positive under below
    · have own : (Equiv.swap hole lesser) place = place := Equiv.swap_apply_of_ne_of_ne here other
      rw [Function.comp_apply, Function.comp_apply, own]
      by_cases beside : above place = hole
      · rw [beside, Equiv.swap_apply_left]
        exact least place below beside
      · rw [Equiv.swap_apply_of_ne_of_ne beside apart]
        exact sinking.apart place below here beside
  · intro place below beside _
    have up := above_lt below
    have own : (Equiv.swap hole lesser) place = place :=
      Equiv.swap_apply_of_ne_of_ne (by omega) (by omega)
    rw [Function.comp_apply, Function.comp_apply, own, under, Equiv.swap_apply_left, ← beside]
    exact sinking.apart place below (by omega) (by omega)

theorem IsSinking.isRising (sinking : IsSinking keys hole)
    (bottom : ∀ place, 0 < place → above place = hole → keys hole ≤ keys place) :
    IsRising keys hole := by
  refine ⟨fun place below other => ?_, sinking.across⟩
  by_cases under : above place = hole
  · exact under ▸ bottom place below under
  · exact sinking.apart place below other under

end Keys

section Keyed

variable {κ : Type} {key : α → κ} {heap : Heap α}

/-- The key of the item at a place, and where there is none the greatest. -/
def keyAt (key : α → κ) (heap : Heap α) (place : Nat) : WithTop κ :=
  match heap[place]? with
  | some item => key item
  | none => ⊤

theorem keyAt_of_some {place : Nat} {item : α} (held : heap[place]? = some item) :
    keyAt key heap place = key item := by
  rw [keyAt, held]

theorem keyAt_of_size_le {place : Nat} (outside : heap.size ≤ place) : keyAt key heap place = ⊤ := by
  rw [keyAt, Array.getElem?_eq_none outside]

theorem keyAt_swap {i j : Nat} (first : i < heap.size) (second : j < heap.size) :
    keyAt key (heap.swapIfInBounds i j) = keyAt key heap ∘ Equiv.swap i j := by
  funext place
  rw [Array.swapIfInBounds_def, dif_pos first, dif_pos second, Function.comp_apply, keyAt, keyAt,
    Array.getElem?_swap, Equiv.swap_apply_def]
  by_cases left : place = i
  · subst left
    by_cases right : j = place
    · subst right
      simp [second]
    · simp [right, second]
  · by_cases right : place = j
    · subst right
      simp [left, first]
    · rw [if_neg (Ne.symm right), if_neg (Ne.symm left), if_neg left, if_neg right]

theorem keyAt_push (item : α) (place : Nat) : keyAt key (Array.push heap item) place =
    if place = heap.size then ↑(key item) else keyAt key heap place := by
  rw [keyAt, Array.getElem?_push]
  by_cases new : place = heap.size
  · rw [if_pos new, if_pos new]
  · rw [if_neg new, if_neg new, keyAt]

theorem keyAt_replaceTop {last : α} {place : Nat} (inside : place < heap.pop.size) :
    keyAt key (heap.pop.setIfInBounds 0 last) place =
      if place = 0 then ↑(key last) else keyAt key heap place := by
  rw [keyAt, Array.getElem?_setIfInBounds]
  by_cases top : place = 0
  · subst top
    rw [if_pos rfl, if_pos inside, if_pos rfl]
  · rw [if_neg (Ne.symm top), if_neg top, Array.getElem?_pop, if_pos (by simpa using inside)]
    rfl

variable [LinearOrder κ]

def IsKeyed (less : α → α → Bool) (key : α → κ) (items : List α) : Prop :=
  ∀ a ∈ items, ∀ b ∈ items, less a b = decide (key a < key b)

theorem IsKeyed.perm {items others : List α} (keyed : IsKeyed less key items)
    (same : others.Perm items) : IsKeyed less key others :=
  fun a first b second => keyed a (same.mem_iff.mp first) b (same.mem_iff.mp second)

theorem lessAt_iff (keyed : IsKeyed less key heap.toList) {i j : Nat} (first : i < heap.size)
    (second : j < heap.size) :
    lessAt less heap i j = true ↔ keyAt key heap i < keyAt key heap j := by
  have left : heap[i]? = some heap[i] := Array.getElem?_eq_getElem first
  have right : heap[j]? = some heap[j] := Array.getElem?_eq_getElem second
  rw [keyAt_of_some left, keyAt_of_some right, WithTop.coe_lt_coe, lessAt, left, right]
  simp [keyed heap[i] (by simp) heap[j] (by simp)]

theorem isOrdered_of_pairwise {items : List α} (sorted : items.Pairwise fun a b => key a ≤ key b) :
    IsOrdered (keyAt key items.toArray) := by
  intro place below
  have up := above_lt below
  by_cases inside : place < items.length
  · have first : items.toArray[above place]? = some items[above place] := by simp [up.trans inside]
    have second : items.toArray[place]? = some items[place] := by simp [inside]
    rw [keyAt_of_some first, keyAt_of_some second, WithTop.coe_le_coe]
    exact List.pairwise_iff_getElem.mp sorted _ _ _ _ up
  · have outside : items.toArray.size ≤ place := by simpa using inside
    rw [keyAt_of_size_le outside]
    exact le_top

theorem rise_isOrdered {fuel place : Nat} (keyed : IsKeyed less key heap.toList)
    (inside : place < heap.size) (enough : place ≤ fuel) (rising : IsRising (keyAt key heap) place) :
    IsOrdered (keyAt key (rise less fuel place heap)) := by
  induction fuel generalizing place heap with
  | zero => exact rising.isOrdered fun below => by omega
  | succ fuel ih =>
    unfold rise
    dsimp only
    split
    · rename_i moves
      obtain ⟨positive, lighter⟩ := Bool.and_eq_true_iff.mp moves
      have below : 0 < place := of_decide_eq_true positive
      have up := above_lt below
      have upInside : above place < heap.size := by omega
      have less := (lessAt_iff keyed inside upInside).mp lighter
      refine ih (keyed.perm (swapIfInBounds_perm _ _ _).toList) ?_ ?_ ?_
      · exact upInside.trans_eq Array.size_swapIfInBounds.symm
      · exact Nat.lt_succ_iff.mp (up.trans_le enough)
      · have swapped : keyAt key (heap.swapIfInBounds place (above place)) = _ :=
          keyAt_swap inside upInside
        exact swapped ▸ rising.step below less
    · rename_i stays
      refine rising.isOrdered fun below => not_lt.mp fun less => stays ?_
      have upInside : above place < heap.size := (above_lt below).trans inside
      exact Bool.and_eq_true_iff.mpr
        ⟨decide_eq_true below, (lessAt_iff keyed inside upInside).mpr less⟩

theorem lesserBelow_spec (keyed : IsKeyed less key heap.toList) {place : Nat}
    (inner : place < heap.size / 2) :
    lesserBelow less heap place < heap.size ∧ 0 < lesserBelow less heap place ∧
      above (lesserBelow less heap place) = place ∧
      ∀ other, 0 < other → above other = place →
        keyAt key heap (lesserBelow less heap place) ≤ keyAt key heap other := by
  have below : ∀ other, 0 < other → above other = place →
      other = 2 * place + 1 ∨ other = 2 * place + 1 + 1 := by
    intro other positive under
    unfold above at under
    omega
  unfold lesserBelow
  dsimp only
  split
  · rename_i second
    obtain ⟨inside, notLess⟩ := Bool.and_eq_true_iff.mp second
    have inside : 2 * place + 1 + 1 < heap.size := of_decide_eq_true inside
    have least : keyAt key heap (2 * place + 1 + 1) ≤ keyAt key heap (2 * place + 1) := by
      refine not_lt.mp fun less => ?_
      rw [(lessAt_iff keyed (by omega) inside).mpr less] at notLess
      cases notLess
    refine ⟨inside, by omega, by unfold above; omega, fun other positive under => ?_⟩
    rcases below other positive under with rfl | rfl
    · exact least
    · exact le_refl _
  · rename_i first
    have inside : 2 * place + 1 < heap.size := by omega
    refine ⟨inside, by omega, by unfold above; omega, fun other positive under => ?_⟩
    rcases below other positive under with rfl | rfl
    · exact le_refl _
    · by_cases outside : heap.size ≤ 2 * place + 1 + 1
      · exact le_top.trans_eq (keyAt_of_size_le outside).symm
      · have within : 2 * place + 1 + 1 < heap.size := not_le.mp outside
        have less : lessAt less heap (2 * place + 1) (2 * place + 1 + 1) = true := by
          by_contra other
          simp [within, other] at first
        exact ((lessAt_iff keyed inside within).mp less).le

theorem sink_isRising (fuel : Nat) {place : Nat} (keyed : IsKeyed less key heap.toList)
    (inside : place < heap.size) (enough : heap.size ≤ place + fuel)
    (sinking : IsSinking (keyAt key heap) place) :
    (sink less fuel place heap).1 < (sink less fuel place heap).2.size ∧
      IsRising (keyAt key (sink less fuel place heap).2) (sink less fuel place heap).1 := by
  induction fuel generalizing place heap with
  | zero => omega
  | succ fuel ih =>
    unfold sink
    split
    · rename_i inner
      obtain ⟨within, positive, under, least⟩ := lesserBelow_spec keyed inner
      have lower := above_lt positive
      refine ih (keyed.perm (swapIfInBounds_perm _ _ _).toList) ?_ ?_ ?_
      · simpa using within
      · simp only [Array.size_swapIfInBounds]
        omega
      · have swapped : keyAt key (heap.swapIfInBounds place (lesserBelow less heap place)) = _ :=
          keyAt_swap inside within
        exact swapped ▸ sinking.step positive under least
    · rename_i leaf
      refine ⟨inside, sinking.isRising fun other positive under => ?_⟩
      have outside : heap.size ≤ other := by
        unfold above at under
        omega
      exact le_top.trans_eq (keyAt_of_size_le outside).symm

theorem push_isOrdered {item : α} (keyed : IsKeyed less key (item :: heap.toList))
    (ordered : IsOrdered (keyAt key heap)) : IsOrdered (keyAt key (push less heap item)) := by
  have pushed : (Array.push heap item).toList.Perm (item :: heap.toList) := by
    rw [Array.toList_push]
    exact List.perm_append_comm
  refine rise_isOrdered (keyed.perm pushed) (by simp) (Nat.le_succ _) ⟨?_, ?_⟩
  · intro place positive other
    have up := above_lt positive
    rw [keyAt_push, keyAt_push, if_neg other]
    by_cases inside : place < heap.size
    · rw [if_neg (by omega)]
      exact ordered place positive
    · rw [keyAt_of_size_le (not_lt.mp inside)]
      exact le_top
  · intro place positive under _
    have up := above_lt positive
    have beyond : heap.size < place := by omega
    have nothing : keyAt key (Array.push heap item) place = ⊤ := by
      rw [keyAt_push, if_neg beyond.ne', keyAt_of_size_le beyond.le]
    exact nothing ▸ le_top

theorem pop?_isOrdered {left : Heap α} {top : α} (keyed : IsKeyed less key heap.toList)
    (ordered : IsOrdered (keyAt key heap)) (popped : pop? less heap = some (top, left)) :
    IsOrdered (keyAt key left) := by
  obtain ⟨first, ⟨-, rfl⟩ | ⟨last, more, final, rfl⟩⟩ := pop?_some popped
  · exact fun place _ => le_top.trans_eq (keyAt_of_size_le (Nat.zero_le place)).symm
  · have size : heap.pop.size = heap.size - 1 := Array.size_pop
    have setSize : (heap.pop.setIfInBounds 0 last).size = heap.pop.size := Array.size_setIfInBounds
    have within : IsKeyed less key (heap.pop.setIfInBounds 0 last).toList := by
      have whole := keyed.perm (replaceTop_perm first final more)
      exact fun a held b other => whole a (List.mem_cons_of_mem _ held) b (List.mem_cons_of_mem _ other)
    have sinking : IsSinking (keyAt key (heap.pop.setIfInBounds 0 last)) 0 := by
      refine ⟨fun place positive _ inner => ?_, fun _ _ _ absurd => by omega⟩
      by_cases inside : place < heap.pop.size
      · have up := above_lt positive
        rw [keyAt_replaceTop inside, keyAt_replaceTop (up.trans inside), if_neg inner, if_neg (by omega)]
        exact ordered place positive
      · rw [keyAt_of_size_le (setSize.le.trans (not_lt.mp inside))]
        exact le_top
    obtain ⟨inside, rising⟩ := sink_isRising heap.pop.size within (by omega) (by omega) sinking
    have sunk : (sink less heap.pop.size 0 (heap.pop.setIfInBounds 0 last)).2.Perm _ := sink_perm _ _ _
    have sizes := sunk.size_eq
    exact rise_isOrdered (within.perm sunk.toList) inside (by omega) rising

theorem pop?_le {left : Heap α} {top : α} (ordered : IsOrdered (keyAt key heap))
    (popped : pop? less heap = some (top, left)) : ∀ item ∈ heap.toList, key top ≤ key item := by
  intro item present
  obtain ⟨place, inside, rfl⟩ := List.mem_iff_getElem.mp present
  have least := ordered.top_le place
  rw [keyAt_of_some (pop?_some popped).1, keyAt_of_some (Array.getElem?_eq_getElem inside)] at least
  exact WithTop.coe_le_coe.mp least

end Keyed

end HarvestPlan.Order.Heap
