import HarvestPlan.Proofs.Balance.Partition
import HarvestPlan.Proofs.Lists

/-!
Dealing in rounds. As no split is ever more than one member ahead of another, the members come to the
splits in blocks of one member for each split, and within a block in the order that the splits have by
their bytes before the block. Main statement: a plan deals its members out exactly so.
-/
namespace HarvestPlan.Balance

abbrev Hand := Nat × List Member

namespace Hand

def bytes (hand : Hand) : Int := (hand.2.map Member.bytes).sum

def ranksFirst (a b : Hand) : Bool := a.bytes < b.bytes || (a.bytes == b.bytes && a.1 ≤ b.1)

def taking (hand : Hand) (member : Member) : Hand := (hand.1, hand.2 ++ [member])

end Hand

/-- Consecutive blocks of so many members, of which the last may be shorter. -/
def blocks (count : Nat) (members : List Member) : List (List Member) :=
  if count = 0 ∨ members = [] then []
  else members.take count :: blocks count (members.drop count)
termination_by members.length
decreasing_by
  rename_i some
  have filled := List.length_pos_iff.mpr (not_or.mp some).2
  simp only [List.length_drop]
  omega

/-- Each member of a block goes to the next hand; with fewer members the last hands stay as they are. -/
def give (hands : List Hand) (block : List Member) : List Hand :=
  List.zipWith Hand.taking hands block ++ hands.drop block.length

def dealRound (hands : List Hand) (block : List Member) : List Hand :=
  give (hands.mergeSort Hand.ranksFirst) block

def inRounds (count : Nat) (members : List Member) : List Hand :=
  (blocks count members).foldl dealRound ((List.range count).map fun index => (index, []))

structure Holds (split : Split) (hand : Hand) : Prop where
  index : split.index = .int hand.1
  members : split.members.toList = hand.2

theorem Holds.size {split : Split} {hand : Hand} (holds : Holds split hand) :
    split.size = hand.2.length := by
  rw [← holds.members]
  rfl

theorem Holds.bytes {split : Split} {hand : Hand} (holds : Holds split hand) :
    split.bytes = hand.bytes := by
  rw [Split.bytes, holds.members]
  rfl

theorem Holds.unique {split : Split} {hand other : Hand} (holds : Holds split hand)
    (otherHolds : Holds split other) : hand = other := by
  have index := holds.index.symm.trans otherHolds.index
  rw [Json.Value.int.injEq, Nat.cast_inj] at index
  exact Prod.ext index (holds.members.symm.trans otherHolds.members)

theorem Holds.taking {split grown : Split} {hand : Hand} {member : Member} (holds : Holds split hand)
    (index : grown.index = split.index) (members : grown.members = split.members.push member) :
    Holds grown (hand.taking member) where
  index := index.trans holds.index
  members := by
    rw [members, Array.toList_push, holds.members]
    rfl

def Hand.Before (a b : Hand) : Prop := a.bytes < b.bytes ∨ a.bytes = b.bytes ∧ a.1 < b.1

theorem Hand.before_irrefl (hand : Hand) : ¬hand.Before hand := by
  unfold Before
  omega

/-- A state in the middle of a round that began with splits of one size. Those served have one member
    more; those that wait are all open, and are listed in their order. -/
structure Midround (size : Nat) (state : State) (served waiting : List Hand) : Prop where
  splits : ∃ done left : List Split, (state.finished ++ state.opened).Perm (done ++ left) ∧
    done.Forall₂ Holds served ∧ left.Forall₂ Holds waiting ∧ ∀ split ∈ left, split ∈ state.opened
  servedSize : ∀ hand ∈ served, hand.2.length = size + 1
  waitingSize : ∀ hand ∈ waiting, hand.2.length = size
  ranked : waiting.Pairwise Hand.Before
  ordered : InOrder state.opened

theorem InOrder.lower {before after : List Split} {split other : Split} {hand otherHand : Hand}
    (ordered : InOrder (before ++ split :: after)) (holds : Holds split hand)
    (otherHolds : Holds other otherHand) (later : other ∈ after) : hand.1 < otherHand.1 := by
  obtain ⟨-, ordered, -⟩ := List.pairwise_append.mp (List.pairwise_map.mp ordered)
  obtain ⟨i, j, index, otherIndex, less⟩ := (List.pairwise_cons.mp ordered).1 other later
  rw [holds.index, Json.Value.int.injEq, Nat.cast_inj] at index
  rw [otherHolds.index, Json.Value.int.injEq, Nat.cast_inj] at otherIndex
  omega

/-- The first lightest of the open splits is the one that waits at the front: one that has been served
    is larger, and of those that wait it has the fewest bytes, and of as many the lowest index. -/
theorem FirstLightest.isFront {size : Nat} {before after : List Split} {split own : Split}
    {done others : List Split} {hand : Hand} {served waiting : List Hand}
    (first : FirstLightest split before after) (ordered : InOrder (before ++ split :: after))
    (open_ : own ∈ before ++ split :: after) (among : split ∈ done ++ own :: others)
    (servedHolds : done.Forall₂ Holds served) (ownHolds : Holds own hand)
    (othersHold : others.Forall₂ Holds waiting)
    (servedSize : ∀ hand ∈ served, hand.2.length = size + 1)
    (waitingSize : ∀ hand ∈ waiting, hand.2.length = size) (ownSize : hand.2.length = size)
    (ranked : ∀ other ∈ waiting, hand.Before other) : split = own := by
  have least : split.key ≤ own.key := by
    rcases mem_middle.mp open_ with rfl | present
    · exact le_rfl
    · exact first.least own present
  have smaller := Split.size_le_of_key_le least
  rw [ownHolds.size, ownSize] at smaller
  rcases mem_middle.mp among with same | among
  · exact same
  rcases List.mem_append.mp among with among | among
  · obtain ⟨other, held, holds⟩ := Lists.exists_left servedHolds.flip among
    have larger := servedSize other held
    rw [holds.size] at smaller
    omega
  · obtain ⟨other, held, holds⟩ := Lists.exists_left othersHold.flip among
    have sizes : own.size = split.size := by
      rw [ownHolds.size, holds.size, ownSize, waitingSize other held]
    have lighter := Split.bytes_le_of_key_le least sizes
    rw [ownHolds.bytes, holds.bytes] at lighter
    obtain ⟨even, lower⟩ : hand.bytes = other.bytes ∧ hand.1 < other.1 := by
      rcases ranked other held with less | even
      · omega
      · exact even
    rcases mem_middle.mp open_ with same | present
    · exact same.symm
    rcases List.mem_append.mp present with present | present
    · have strict := first.before own present
      rw [Split.key, Split.key, Prod.Lex.toLex_lt_toLex] at strict
      rcases strict with strict | ⟨-, strict⟩
      · exact absurd sizes (Nat.ne_of_gt strict)
      · rw [holds.bytes, ownHolds.bytes] at strict
        omega
    · have higher := ordered.lower holds ownHolds present
      omega

theorem Midround.step {cap : Int} {size : Nat} {member : Member} {state next : State} {hand : Hand}
    {served waiting : List Hand} (mid : Midround size state served (hand :: waiting))
    (placed : Placed cap member state next) :
    Midround size next (served ++ [hand.taking member]) waiting := by
  obtain ⟨before, after, split, grown, turn⟩ := placed.turn
  obtain ⟨done, left, perm, servedHolds, leftHolds, open_⟩ := mid.splits
  obtain ⟨own, others, ownHolds, othersHold, rfl⟩ := List.forall₂_cons_right_iff.mp leftHolds
  obtain ⟨ahead, ranked⟩ := List.pairwise_cons.mp mid.ranked
  obtain ⟨ownSize, waitingSize⟩ := List.forall_mem_cons.mp mid.waitingSize
  obtain ⟨ownOpen, othersOpen⟩ := List.forall_mem_cons.mp open_
  have ordered := mid.ordered
  rw [turn.opened] at perm ownOpen ordered othersOpen
  have among : split ∈ done ++ own :: others := perm.mem_iff.mp (by simp)
  obtain rfl : split = own := turn.first.isFront ordered ownOpen among servedHolds ownHolds othersHold
    mid.servedSize waitingSize ownSize ahead
  have rest : (state.finished ++ (before ++ after)).Perm (done ++ others) :=
    List.Perm.cons_inv
      ((middle_perm split before after state.finished).symm.trans (perm.trans List.perm_middle))
  constructor
  case splits =>
    refine ⟨done ++ [grown], others, ?_, ?_, othersHold, ?_⟩
    · refine turn.splits.trans ((rest.cons grown).trans ?_)
      rw [List.append_assoc, List.singleton_append]
      exact List.perm_middle.symm
    · exact List.rel_append servedHolds (.cons (ownHolds.taking turn.index turn.members) .nil)
    · intro other present
      obtain ⟨otherHand, held, holds⟩ := Lists.exists_left othersHold.flip present
      refine turn.kept other ?_
      rcases mem_middle.mp (othersOpen other present) with rfl | present
      · rw [← ownHolds.unique holds] at held
        exact absurd (ahead hand held) hand.before_irrefl
      · exact present
  case servedSize =>
    intro other present
    rcases List.mem_append.mp present with present | present
    · exact mid.servedSize other present
    · rw [List.mem_singleton.mp present]
      simp [Hand.taking, ownSize]
  case waitingSize => exact waitingSize
  case ranked => exact ranked
  case ordered => exact List.Pairwise.sublist turn.indices mid.ordered

/-- A block of no more members than hands wait serves these in their order. -/
theorem Midround.run {cap : Int} {size : Nat} {block : List Member} {state last : State}
    (deals : Deals cap block state last) {served waiting : List Hand}
    (mid : Midround size state served waiting) (few : block.length ≤ waiting.length) :
    Midround size last (served ++ List.zipWith Hand.taking waiting block)
      (waiting.drop block.length) := by
  induction deals generalizing served waiting with
  | done => simpa using mid
  | @next member rest state middle last first later ih =>
    cases waiting with
    | nil => simp at few
    | cons hand waiting =>
      have next := ih (mid.step first) (by simpa using few)
      simpa using next

structure Even (size : Nat) (state : State) (hands : List Hand) : Prop where
  splits : ∃ splits : List Split, (state.finished ++ state.opened).Perm splits ∧
    splits.Forall₂ Holds hands
  size : ∀ hand ∈ hands, hand.2.length = size
  distinct : (hands.map Prod.fst).Nodup
  ordered : InOrder state.opened

theorem ranksFirst_iff {a b : Hand} :
    a.ranksFirst b = true ↔ a.bytes < b.bytes ∨ a.bytes = b.bytes ∧ a.1 ≤ b.1 := by
  simp [Hand.ranksFirst]

theorem mergeSort_ranked {hands : List Hand} (distinct : (hands.map Prod.fst).Nodup) :
    (hands.mergeSort Hand.ranksFirst).Pairwise Hand.Before := by
  have perm := List.mergeSort_perm hands Hand.ranksFirst
  have apart : (hands.mergeSort Hand.ranksFirst).Pairwise fun a b => a.1 ≠ b.1 :=
    List.pairwise_map.mp ((perm.map Prod.fst).nodup_iff.mpr distinct)
  have sorted : (hands.mergeSort Hand.ranksFirst).Pairwise fun a b => a.ranksFirst b = true := by
    refine List.pairwise_mergeSort ?_ ?_ hands
    · intro a b c first second
      rw [ranksFirst_iff] at first second ⊢
      omega
    · intro a b
      simp only [Bool.or_eq_true, ranksFirst_iff]
      omega
  refine (sorted.and apart).imp ?_
  rintro a b ⟨first, different⟩
  rw [ranksFirst_iff] at first
  unfold Hand.Before
  omega

theorem Even.begin {cap : Int} {count size : Nat} {already : List Member} {member : Member}
    {state next : State} {hands : List Hand} (even : Even size state hands)
    (dealt : Dealt cap count already state) (placed : Placed cap member state next) :
    Midround size state [] (hands.mergeSort Hand.ranksFirst) := by
  obtain ⟨splits, perm, holds⟩ := even.splits
  have sorts := List.mergeSort_perm hands Hand.ranksFirst
  obtain ⟨waiting, moved, waitingHolds⟩ := Lists.exists_perm_beside holds sorts.symm
  have perm := perm.trans moved
  have sizes : ∀ split ∈ state.finished ++ state.opened, split.size = size := by
    intro split present
    obtain ⟨hand, held, same⟩ := Lists.exists_left waitingHolds.flip (perm.mem_iff.mp present)
    rw [same.size]
    exact even.size hand (sorts.mem_iff.mp held)
  obtain ⟨_, _, chosen, _, turn⟩ := placed.turn
  have below := dealt.ready.below chosen turn.present
  rw [sizes chosen (List.mem_append_right _ turn.present)] at below
  constructor
  case splits =>
    refine ⟨[], waiting, by simpa using perm, .nil, waitingHolds, ?_⟩
    intro split present
    rcases List.mem_append.mp (perm.mem_iff.mpr present) with finished | opened
    · have full := (dealt.closed split finished).2.2
      rw [sizes split (List.mem_append_left _ finished)] at full
      omega
    · exact opened
  case servedSize => simp
  case waitingSize => exact fun hand present => even.size hand (sorts.mem_iff.mp present)
  case ranked => exact mergeSort_ranked even.distinct
  case ordered => exact even.ordered

theorem give_indices (hands : List Hand) (block : List Member) :
    (give hands block).map Prod.fst = hands.map Prod.fst := by
  induction hands generalizing block with
  | nil => simp [give]
  | cons hand rest ih =>
    cases block with
    | nil => simp [give]
    | cons member block =>
      have later := ih block
      simp only [give, List.zipWith_cons_cons, List.length_cons, List.drop_succ_cons,
        List.cons_append, List.map_cons] at later ⊢
      rw [later]
      rfl

theorem dealRound_indices (hands : List Hand) (block : List Member) :
    ((dealRound hands block).map Prod.fst).Perm (hands.map Prod.fst) := by
  rw [dealRound, give_indices]
  exact (List.mergeSort_perm hands Hand.ranksFirst).map _

theorem Deals.split {cap : Int} {front back : List Member} {state last : State}
    (deals : Deals cap (front ++ back) state last) :
    ∃ middle, Deals cap front state middle ∧ Deals cap back middle last := by
  induction front generalizing state with
  | nil => exact ⟨state, .done, deals⟩
  | cons member front ih =>
    cases deals with
    | next first later =>
      obtain ⟨middle, early, late⟩ := ih later
      exact ⟨middle, .next first early, late⟩

/-- A round: the block is dealt out to the hands in their order, and if it has a member for each of
    them, they are even again. -/
theorem Even.round {cap : Int} {count size : Nat} {placed block : List Member}
    {state last : State} {hands : List Hand} (even : Even size state hands)
    (dealt : Dealt cap count placed state) (deals : Deals cap block state last) (some : block ≠ [])
    (few : block.length ≤ hands.length) :
    (∃ splits : List Split, (last.finished ++ last.opened).Perm splits ∧
      splits.Forall₂ Holds (dealRound hands block)) ∧
    (block.length = hands.length → Even (size + 1) last (dealRound hands block)) := by
  have length : (hands.mergeSort Hand.ranksFirst).length = hands.length :=
    List.length_mergeSort hands
  have mid : Midround size state [] (hands.mergeSort Hand.ranksFirst) := by
    cases deals with
    | done => exact absurd rfl some
    | next first later => exact even.begin dealt first
  have ended := mid.run deals (by rwa [length])
  rw [List.nil_append] at ended
  obtain ⟨done, left, perm, servedHolds, leftHolds, -⟩ := ended.splits
  have holds : ∃ splits : List Split, (last.finished ++ last.opened).Perm splits ∧
      splits.Forall₂ Holds (dealRound hands block) :=
    ⟨done ++ left, perm, List.rel_append servedHolds leftHolds⟩
  refine ⟨holds, fun full => ⟨holds, ?_, ?_, ended.ordered⟩⟩
  · have all : dealRound hands block =
        List.zipWith Hand.taking (hands.mergeSort Hand.ranksFirst) block := by
      rw [dealRound, give, List.drop_of_length_le (by omega), List.append_nil]
    rw [all]
    exact ended.servedSize
  · exact (dealRound_indices hands block).nodup_iff.mpr even.distinct

theorem Deals.rounds {cap : Int} {count size : Nat} {placed members : List Member}
    {state last : State} {hands : List Hand} (deals : Deals cap members state last)
    (dealt : Dealt cap count placed state) (number : hands.length = count) (positive : 0 < count)
    (holds : ∃ splits : List Split, (state.finished ++ state.opened).Perm splits ∧
      splits.Forall₂ Holds hands)
    (even : members ≠ [] → Even size state hands) :
    ∃ splits : List Split, (last.finished ++ last.opened).Perm splits ∧
      splits.Forall₂ Holds ((blocks count members).foldl dealRound hands) := by
  induction members using blocks.induct count generalizing size placed state hands with
  | case1 members none =>
    obtain rfl : members = [] := none.resolve_left (by omega)
    cases deals
    rw [blocks, if_pos none]
    exact holds
  | case2 members some ih =>
    have filled : members ≠ [] := (not_or.mp some).2
    rw [blocks, if_neg some, List.foldl_cons]
    rw [← List.take_append_drop count members] at deals
    obtain ⟨middle, early, late⟩ := deals.split
    have few : (members.take count).length ≤ hands.length := by
      rw [List.length_take]
      omega
    have taken : members.take count ≠ [] := by
      simp only [ne_eq, List.take_eq_nil_iff]
      exact some
    obtain ⟨holdsNext, evenNext⟩ := (even filled).round dealt early taken few
    refine ih late (dealt.along early) ?_ holdsNext fun more => evenNext ?_
    · have lengths := (dealRound_indices hands (members.take count)).length_eq
      simpa [number] using lengths
    · have longer := List.length_pos_iff.mpr more
      rw [List.length_drop] at longer
      rw [List.length_take]
      omega

theorem even_start (count : Nat) :
    Even 0 (State.start count) ((List.range count).map fun index => (index, [])) := by
  constructor
  case splits =>
    refine ⟨(State.start count).opened, by simp [State.start], ?_⟩
    rw [State.start, unfilled, List.forall₂_map_left_iff, List.forall₂_map_right_iff, List.forall₂_same]
    exact fun index _ => ⟨rfl, rfl⟩
  case size => simp
  case distinct => simpa [Function.comp_def] using List.nodup_range
  case ordered => exact inOrder_start count

/-- A plan deals its members out in rounds: with as many splits as the cap asks for, the members, largest
    first, are cut into blocks of one for each split, and within each block the first member goes to
    the split with the fewest bytes before the block, and so on; of splits with as many bytes the one
    with the lower index comes first. What a split holds are its members of the blocks in order. -/
theorem plan_inRounds (members : List Member) (cap : Int)
    (whole : ∀ member ∈ members, member.IsWhole) (positive : 1 ≤ cap) :
    ∃ count ordered plan, numSplits members.length cap = .ok count ∧ sort members = .ok ordered ∧
      Balance.plan members cap = .ok plan ∧
      (plan.splits.map fun split => (split.index, split.members.toList)).Perm
        ((inRounds count ordered).map fun (index, held) => (Json.Value.int index, held)) := by
  obtain ⟨count, state, planned, least, deals, dealt⟩ := plan_deals whole positive
  obtain ⟨number, counted, alsoLeast⟩ :=
    numSplits_isLeast positive (show (0 : Int) ≤ members.length by omega)
  obtain rfl : number = count := alsoLeast.unique least
  refine ⟨number, sorted members, _, counted, sort_of_whole whole, planned, ?_⟩
  by_cases none : number = 0
  · have splits := dealt.splits_length
    rw [none, List.length_eq_zero_iff] at splits
    simp [splits, none, inRounds, blocks]
  · have even := even_start number
    obtain ⟨splits, perm, holds⟩ := deals.rounds (dealt_start positive number) (by simp)
      (Nat.pos_of_ne_zero none) even.splits fun _ => even
    have finalized : (state.splits.map fun split => (split.index, split.members.toList)) =
        (state.finished ++ state.opened).map fun split => (split.index, split.members.toList) := by
      simp [State.splits, Split.finalize, Function.comp_def]
    have same := Lists.map_eq_map holds
      (f := fun split => (split.index, split.members.toList)) (g := fun hand => (.int hand.1, hand.2))
      fun split hand held => by rw [held.index, held.members]
    rw [finalized, inRounds, ← same]
    exact perm.map _

/-- The largest file comes first, so that its split is the last to get another and gets none. -/
example : inRounds 3 [file "c" 7, file "a" 4, file "d" 4, file "e" 1, file "b" 0] =
    [(1, [file "a" 4, file "e" 1]), (2, [file "d" 4, file "b" 0]), (0, [file "c" 7])] := by
  cbv

theorem plan_inRounds_five_files :
    (∀ member ∈ [file "a" 4, file "b" 0, file "c" 7, file "d" 4, file "e" 1], member.IsWhole) ∧
      (1 : Int) ≤ 2 ∧
      ∃ count ordered plan, numSplits 5 2 = .ok count ∧
        sort [file "a" 4, file "b" 0, file "c" 7, file "d" 4, file "e" 1] = .ok ordered ∧
        Balance.plan [file "a" 4, file "b" 0, file "c" 7, file "d" 4, file "e" 1] 2 = .ok plan ∧
        (plan.splits.map fun split => (split.index, split.members.toList)).Perm
          ((inRounds count ordered).map fun (index, held) => (Json.Value.int index, held)) := by
  have whole : ∀ member ∈ [file "a" 4, file "b" 0, file "c" 7, file "d" 4, file "e" 1],
      member.IsWhole := by
    simp [file_isWhole]
  exact ⟨whole, by decide, plan_inRounds _ 2 whole (by decide)⟩

end HarvestPlan.Balance
