import Mathlib.Algebra.Order.Ring.Abs
import HarvestPlan.Proofs.Balance.Partition

/-!
The bytes of the splits of a plan. Dealing goes in rounds, and in each of them the members come largest
first and the splits lightest first, so that no two totals ever differ by more than the size of one
member.
-/
namespace HarvestPlan.Balance

/-- How the splits stand while the members of `rest` are still to come. A split that is one member
    ahead of another was the lighter of the two before it took its last member. -/
structure IsSpread (most : Int) (rest : List Member) (splits : List Split) : Prop where
  near : ∀ a ∈ splits, ∀ b ∈ splits, a.bytes ≤ b.bytes + most
  ahead : ∀ a ∈ splits, ∀ b ∈ splits, a.size = b.size + 1 →
    ∃ last, last ≤ most ∧ (∀ member ∈ rest, member.bytes ≤ last) ∧
      a.bytes ≤ b.bytes + last ∧ b.bytes + last ≤ a.bytes + most

structure IsLowest (split : Split) (others : List Split) : Prop where
  size : ∀ other ∈ others, split.size ≤ other.size
  bytes : ∀ other ∈ others, other.size = split.size → split.bytes ≤ other.bytes
  level : ∀ other ∈ others, other.size ≤ split.size + 1

theorem FirstLightest.isLowest {cap : Int} {before after finished : List Split} {split : Split}
    (first : FirstLightest split before after) (below : (split.size : Int) < cap)
    (full : ∀ other ∈ finished, (other.size : Int) = cap)
    (level : ∃ low, IsLevel low ((finished ++ (before ++ split :: after)).map Split.size)) :
    IsLowest split (finished ++ (before ++ after)) := by
  obtain ⟨low, level⟩ := level
  have levels : ∀ other ∈ split :: (finished ++ (before ++ after)),
      other.size = low ∨ other.size = low + 1 := by
    intro other present
    exact level _ (List.mem_map_of_mem ((middle_perm split before after finished).mem_iff.mpr present))
  have own := levels split (by simp)
  constructor
  case size =>
    intro other present
    rcases List.mem_append.mp present with present | present
    · have capped := full other present
      omega
    · exact Split.size_le_of_key_le (first.least other present)
  case bytes =>
    intro other present same
    rcases List.mem_append.mp present with present | present
    · have capped := full other present
      omega
    · exact Split.bytes_le_of_key_le (first.least other present) same
  case level =>
    intro other present
    have others := levels other (List.mem_cons_of_mem _ present)
    omega

/-- One more member, no larger than those before it, for the lowest split. -/
theorem IsSpread.grow {most : Int} {member : Member} {rest : List Member} {split grown : Split}
    {old new others : List Split} (spread : IsSpread most (member :: rest) old)
    (before : old.Perm (split :: others)) (after : new.Perm (grown :: others))
    (lowest : IsLowest split others) (size : grown.size = split.size + 1)
    (bytes : grown.bytes = split.bytes + member.bytes) (natural : 0 ≤ member.bytes)
    (bounded : member.bytes ≤ most) (descends : ∀ other ∈ rest, other.bytes ≤ member.bytes) :
    IsSpread most rest new := by
  have held : split ∈ old := before.mem_iff.mpr List.mem_cons_self
  have kept : ∀ other ∈ others, other ∈ old :=
    fun other present => before.mem_iff.mpr (List.mem_cons_of_mem _ present)
  have cases : ∀ other ∈ new, other = grown ∨ other ∈ others :=
    fun other present => List.mem_cons.mp (after.mem_iff.mp present)
  -- against a split that was ahead, the last members of both count; against another, the new one only
  have beside : ∀ other ∈ others,
      grown.bytes ≤ other.bytes + most ∧ other.bytes ≤ grown.bytes + most := by
    intro other present
    by_cases even : other.size = split.size
    · have lighter := lowest.bytes other present even
      have near := spread.near other (kept other present) split held
      omega
    · have one : other.size = split.size + 1 := by
        have least := lowest.size other present
        have most := lowest.level other present
        omega
      obtain ⟨last, small, larger, lighter, near⟩ := spread.ahead other (kept other present) split held one
      have least := larger member List.mem_cons_self
      omega
  constructor
  case near =>
    intro a present b otherPresent
    rcases cases a present with rfl | present <;> rcases cases b otherPresent with rfl | otherPresent
    · omega
    · exact (beside b otherPresent).1
    · exact (beside a present).2
    · exact spread.near a (kept a present) b (kept b otherPresent)
  case ahead =>
    intro a present b otherPresent one
    rcases cases a present with rfl | present <;> rcases cases b otherPresent with rfl | otherPresent
    · omega
    · have lighter := lowest.bytes b otherPresent (by omega)
      have near := spread.near b (kept b otherPresent) split held
      exact ⟨member.bytes, bounded, descends, by omega, by omega⟩
    · have level := lowest.level a present
      omega
    · obtain ⟨last, small, larger, lighter, near⟩ :=
        spread.ahead a (kept a present) b (kept b otherPresent) one
      exact ⟨last, small, fun other later => larger other (List.mem_cons_of_mem _ later), lighter, near⟩

theorem IsSpread.step {cap most : Int} {count : Nat} {placed rest : List Member} {member : Member}
    {state next : State} (dealt : Dealt cap count placed state)
    (spread : IsSpread most (member :: rest) (state.finished ++ state.opened))
    (step : Placed cap member state next) (natural : 0 ≤ member.bytes)
    (bounded : member.bytes ≤ most) (descends : ∀ other ∈ rest, other.bytes ≤ member.bytes) :
    IsSpread most rest (next.finished ++ next.opened) := by
  obtain ⟨before, after, split, grown, turn⟩ := step.turn
  have level := dealt.level
  rw [turn.opened] at level
  have lowest := turn.first.isLowest (dealt.ready.below split turn.present)
    (fun other present => (dealt.closed other present).2.2) level
  exact spread.grow turn.old turn.splits lowest turn.size turn.bytes natural bounded descends

theorem IsSpread.run {cap most : Int} {count : Nat} {placed members : List Member}
    {state last : State} (deals : Deals cap members state last) (dealt : Dealt cap count placed state)
    (spread : IsSpread most members (state.finished ++ state.opened))
    (natural : ∀ member ∈ members, 0 ≤ member.bytes)
    (bounded : ∀ member ∈ members, member.bytes ≤ most)
    (descends : members.Pairwise fun a b => b.bytes ≤ a.bytes) :
    IsSpread most [] (last.finished ++ last.opened) := by
  induction deals generalizing placed with
  | done => exact spread
  | next first later ih =>
    obtain ⟨largest, descends⟩ := List.pairwise_cons.mp descends
    have next := spread.step dealt first (natural _ (by simp)) (bounded _ (by simp)) largest
    exact ih (dealt.step first) next
      (fun other present => natural other (List.mem_cons_of_mem _ present))
      (fun other present => bounded other (List.mem_cons_of_mem _ present)) descends

theorem isSpread_start {most : Int} (natural : 0 ≤ most) (members : List Member) (count : Nat) :
    IsSpread most members ((State.start count).finished ++ (State.start count).opened) := by
  have empty : ∀ split ∈ (State.start count).finished ++ (State.start count).opened,
      split.size = 0 ∧ split.bytes = 0 := by
    intro split present
    simp only [State.start, List.nil_append] at present
    obtain ⟨index, -, rfl⟩ := List.mem_map.mp present
    exact ⟨rfl, rfl⟩
  constructor
  · intro a present b otherPresent
    rw [(empty a present).2, (empty b otherPresent).2]
    omega
  · intro a present b otherPresent one
    rw [(empty a present).1, (empty b otherPresent).1] at one
    omega

theorem sorted_descends {members : List Member} (whole : ∀ member ∈ members, member.IsWhole) :
    (sorted members).Pairwise fun a b => b.bytes ≤ a.bytes := by
  have sizes : (sorted members).map Member.bytes =
      (members.map Member.bytes).mergeSort fun a b => decide (b ≤ a) :=
    List.map_mergeSort fun a held b otherHeld => heavierFirst_whole (whole a held) (whole b otherHeld)
  have descends : ((members.map Member.bytes).mergeSort fun a b => decide (b ≤ a)).Pairwise
      fun a b => decide (b ≤ a) = true := by
    refine List.pairwise_mergeSort ?_ ?_ (members.map Member.bytes)
    · intro a b c first second
      simp only [decide_eq_true_eq] at first second ⊢
      omega
    · intro a b
      simp only [Bool.or_eq_true, decide_eq_true_eq]
      omega
  rw [← sizes] at descends
  simpa only [List.pairwise_map, decide_eq_true_eq] using descends

theorem Dealt.splits_bytes {cap : Int} {count : Nat} {placed : List Member} {state : State}
    (dealt : Dealt cap count placed state) {split : Split} (present : split ∈ state.splits) :
    ∃ held ∈ state.finished ++ state.opened, split.totalBytes = .int held.bytes := by
  rcases List.mem_append.mp present with present | present
  · exact ⟨split, List.mem_append_left _ present, (dealt.closed split present).1.total⟩
  · obtain ⟨held, held_mem, rfl⟩ := List.mem_map.mp present
    exact ⟨held, List.mem_append_right _ held_mem, (dealt.ready.counted held held_mem).total⟩

/-- The totals of any two splits differ by the largest size among the members, or by less. -/
def IsClose (members : List Member) (plan : Plan) : Prop :=
  ∀ a ∈ plan.splits, ∀ b ∈ plan.splits, ∃ largest ∈ members,
    (∀ member ∈ members, member.bytes ≤ largest.bytes) ∧
    ∃ x y : Int, a.totalBytes = .int x ∧ b.totalBytes = .int y ∧ |x - y| ≤ largest.bytes

theorem plan_isClose (members : List Member) (cap : Int)
    (whole : ∀ member ∈ members, member.IsWhole)
    (natural : ∀ member ∈ members, 0 ≤ member.bytes) (positive : 1 ≤ cap) :
    ∃ plan, Balance.plan members cap = .ok plan ∧ IsClose members plan := by
  obtain ⟨count, state, planned, least, deals, dealt⟩ := plan_deals whole positive
  refine ⟨_, planned, ?_⟩
  intro a present b otherPresent
  have inSorted {member : Member} : member ∈ sorted members ↔ member ∈ members :=
    (sorted_perm members).mem_iff
  have descends := sorted_descends whole
  cases inOrder : sorted members with
  | nil =>
    -- without members there is no split to compare
    have empty : members.length = 0 := by
      rw [← (sorted_perm members).length_eq, inOrder]
      rfl
    have none : count = 0 := Nat.le_zero.mp (least.2 (by simp [empty]))
    have splits := dealt.splits_length
    rw [none, List.length_eq_zero_iff] at splits
    simp [splits] at present
  | cons largest rest =>
    rw [inOrder, List.pairwise_cons] at descends
    have held : largest ∈ members := inSorted.mp (by simp [inOrder])
    have bounded : ∀ member ∈ members, member.bytes ≤ largest.bytes := by
      intro member present
      have placed := inSorted.mpr present
      rw [inOrder] at placed
      rcases List.mem_cons.mp placed with rfl | later
      · exact le_rfl
      · exact descends.1 member later
    have spread := (isSpread_start (natural largest held) (sorted members) count).run deals
      (dealt_start positive count) (fun member placed => natural member (inSorted.mp placed))
      (fun member placed => bounded member (inSorted.mp placed)) (sorted_descends whole)
    obtain ⟨heldA, heldA_mem, bytesA⟩ := dealt.splits_bytes present
    obtain ⟨heldB, heldB_mem, bytesB⟩ := dealt.splits_bytes otherPresent
    have above := spread.near heldA heldA_mem heldB heldB_mem
    have below := spread.near heldB heldB_mem heldA heldA_mem
    exact ⟨largest, held, bounded, _, _, bytesA, bytesB, abs_le.mpr ⟨by omega, by omega⟩⟩

theorem bytes_file (name : String) (size : Int) : (file name size).bytes = size := rfl

theorem plan_isClose_five_files :
    (∀ member ∈ [file "a" 4, file "b" 0, file "c" 7, file "d" 4, file "e" 1],
        member.IsWhole ∧ 0 ≤ member.bytes) ∧ (1 : Int) ≤ 2 ∧
      ∃ plan, Balance.plan [file "a" 4, file "b" 0, file "c" 7, file "d" 4, file "e" 1] 2 =
          .ok plan ∧
        IsClose [file "a" 4, file "b" 0, file "c" 7, file "d" 4, file "e" 1] plan := by
  have whole : ∀ member ∈ [file "a" 4, file "b" 0, file "c" 7, file "d" 4, file "e" 1],
      member.IsWhole ∧ 0 ≤ member.bytes := by
    simp [file_isWhole, bytes_file]
  exact ⟨whole, by decide, plan_isClose _ 2 (fun member present => (whole member present).1)
    (fun member present => (whole member present).2) (by decide)⟩

end HarvestPlan.Balance
