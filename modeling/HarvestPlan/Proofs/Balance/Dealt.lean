import HarvestPlan.Proofs.Balance.Dealing
import HarvestPlan.Proofs.Balance.Level

namespace HarvestPlan.Balance

def InOrder (splits : List Split) : Prop :=
  (splits.map (·.index)).Pairwise fun a b => ∃ i j : Nat, a = .int i ∧ b = .int j ∧ i < j

theorem InOrder.nodup {splits : List Split} (ordered : InOrder splits) :
    (splits.map (·.index)).Nodup := by
  refine List.Pairwise.imp ?_ ordered
  rintro _ _ ⟨i, j, rfl, rfl, less⟩ same
  rw [Json.Value.int.injEq, Nat.cast_inj] at same
  omega

theorem inOrder_start (count : Nat) : InOrder (State.start count).opened := by
  simp only [InOrder, State.start, unfilled, List.map_map]
  refine List.pairwise_map.mpr (List.pairwise_lt_range.imp ?_)
  exact fun less => ⟨_, _, rfl, rfl, less⟩

theorem mem_middle {split other : Split} {before after : List Split} :
    other ∈ before ++ split :: after ↔ other = split ∨ other ∈ before ++ after := by
  simp only [List.mem_append, List.mem_cons]
  tauto

/-- The splits of a state that is `low` levels high, dealt out of the members placed. -/
structure Dealt (cap : Int) (count : Nat) (placed : List Member) (state : State) : Prop where
  ready : state.IsOpen cap
  closed : ∀ split ∈ state.finished,
    split.IsCounted ∧ split.finalized = true ∧ (split.size : Int) = cap
  level : ∃ low, IsLevel low ((state.finished ++ state.opened).map Split.size)
  number : (state.finished ++ state.opened).length = count
  members : ((state.finished ++ state.opened).flatMap (·.members.toList)).Perm placed

theorem Dealt.sum_sizes {cap : Int} {count : Nat} {placed : List Member} {state : State}
    (dealt : Dealt cap count placed state) :
    ((state.finished ++ state.opened).map Split.size).sum = placed.length := by
  rw [← dealt.members.length_eq, List.length_flatMap]
  rfl

theorem Dealt.average {cap : Int} {count : Nat} {placed : List Member} {state : State}
    (dealt : Dealt cap count placed state) {split : Split}
    (present : split ∈ state.finished ++ state.opened) :
    split.size = placed.length / count ∨ split.size = (placed.length + count - 1) / count := by
  obtain ⟨low, level⟩ := dealt.level
  have average := level.average (List.mem_map_of_mem present)
  rwa [dealt.sum_sizes, List.length_map, dealt.number] at average

theorem dealt_start {cap : Int} (positive : 1 ≤ cap) (count : Nat) :
    Dealt cap count [] (State.start count) where
  ready :=
    { counted := by
        intro split present
        obtain ⟨index, -, rfl⟩ := List.mem_map.mp present
        exact Split.isCounted_empty _
      opened := by
        intro split present
        obtain ⟨index, -, rfl⟩ := List.mem_map.mp present
        rfl
      below := by
        intro split present
        obtain ⟨index, -, rfl⟩ := List.mem_map.mp present
        simp only [Split.empty, Split.size, List.size_toArray, List.length_nil, Nat.cast_zero]
        omega
      distinct := by
        simp only [State.start, unfilled, List.map_map]
        apply List.Nodup.map _ List.nodup_range
        intro i j same
        simpa [Split.empty] using same }
  closed := by simp [State.start]
  level := by
    refine ⟨0, ?_⟩
    intro size present
    simp only [State.start, unfilled, List.nil_append, List.map_map, List.mem_map] at present
    obtain ⟨index, -, rfl⟩ := present
    simp [Split.empty, Split.size]
  number := by simp [State.start, unfilled]
  members := by
    have nothing : ∀ split ∈ (State.start count).opened, split.members.toList = [] := by
      intro split present
      obtain ⟨index, -, rfl⟩ := List.mem_map.mp present
      rfl
    simp only [State.start, List.nil_append] at nothing ⊢
    rw [List.flatMap_eq_nil_iff.mpr nothing]

theorem Dealt.room {cap : Int} {count : Nat} {placed : List Member} {state : State}
    (dealt : Dealt cap count placed state) (fewer : (placed.length : Int) < count * cap) :
    state.opened ≠ [] := by
  intro empty
  have full : ∀ size ∈ state.finished.map Split.size, (size : Int) = cap := by
    intro size present
    obtain ⟨split, member, rfl⟩ := List.mem_map.mp present
    exact (dealt.closed split member).2.2
  have sum : ∀ sizes : List Nat, (∀ size ∈ sizes, (size : Int) = cap) →
      (sizes.sum : Int) = sizes.length * cap := by
    intro sizes same
    induction sizes with
    | nil => simp
    | cons size rest ih =>
      have first := same size (by simp)
      have others := ih fun other member => same other (List.mem_cons_of_mem _ member)
      simp only [List.sum_cons, List.length_cons, Nat.cast_add, Nat.cast_succ, others, first]
      ring
  have total := dealt.sum_sizes
  have number := dealt.number
  rw [empty, List.append_nil] at total number
  have sums := sum _ full
  rw [total, List.length_map, number] at sums
  omega

/-- The first of the lightest splits is one of the smallest, so that with one more member it stays
    level with the others. Finished splits are greater than it and then of the upper level. -/
theorem level_taking {cap : Int} {before after finished : List Split} {split : Split}
    (first : FirstLightest split before after) (below : (split.size : Int) < cap)
    (full : ∀ other ∈ finished, (other.size : Int) = cap)
    (level : ∃ low, IsLevel low ((finished ++ (before ++ split :: after)).map Split.size)) :
    ∃ low, (split.size + 1 = low ∨ split.size + 1 = low + 1) ∧
      ∀ other ∈ finished ++ (before ++ after), other.size = low ∨ other.size = low + 1 := by
  obtain ⟨low, level⟩ := level
  have levels : ∀ other ∈ finished ++ (before ++ split :: after),
      other.size = low ∨ other.size = low + 1 :=
    fun other present => level _ (List.mem_map_of_mem present)
  have least : ∀ other ∈ before ++ after, split.size ≤ other.size :=
    fun other present => Split.size_le_of_key_le (first.least other present)
  have others : ∀ other ∈ finished ++ (before ++ after),
      other ∈ finished ++ (before ++ split :: after) := by
    intro other present
    simp only [List.mem_append, List.mem_cons] at present ⊢
    tauto
  rcases levels split (by simp) with low_eq | high
  · exact ⟨low, by omega, fun other present => levels other (others other present)⟩
  · refine ⟨low + 1, by omega, ?_⟩
    intro other present
    have size_eq := levels other (others other present)
    rcases List.mem_append.mp present with present | present
    · have size_full := full other present
      omega
    · have size_le := least other present
      omega

theorem members_taking {old new rest : List Split} {split grown : Split} {member : Member}
    {placed : List Member} (before : old.Perm (split :: rest)) (after : new.Perm (grown :: rest))
    (taken : grown.members = split.members.push member)
    (members : (old.flatMap (·.members.toList)).Perm placed) :
    (new.flatMap (·.members.toList)).Perm (placed ++ [member]) := by
  have held := (before.flatMap_right fun split => split.members.toList).symm.trans members
  have holds := after.flatMap_right fun split => split.members.toList
  simp only [List.flatMap_cons, taken, Array.toList_push] at held holds
  have joined := held.append_right [member]
  rw [List.append_assoc] at joined holds
  exact holds.trans ((List.perm_append_comm.append_left _).trans joined)

theorem middle_perm {α : Type} (item : α) (before after front : List α) :
    (front ++ (before ++ item :: after)).Perm (item :: (front ++ (before ++ after))) := by
  rw [← List.append_assoc, ← List.append_assoc]
  exact List.perm_middle

theorem level_of_perm {low : Nat} {splits rest : List Split} {grown : Split}
    (perm : splits.Perm (grown :: rest)) (first : grown.size = low ∨ grown.size = low + 1)
    (others : ∀ other ∈ rest, other.size = low ∨ other.size = low + 1) :
    IsLevel low (splits.map Split.size) := by
  intro size held
  obtain ⟨other, present, rfl⟩ := List.mem_map.mp held
  rcases List.mem_cons.mp (perm.mem_iff.mp present) with rfl | present
  · exact first
  · exact others other present

/-- What any placement does: the first lightest of the open splits has grown by the member, and the
    others are as they were. -/
structure Turn (member : Member) (state next : State) (before after : List Split)
    (split grown : Split) : Prop where
  opened : state.opened = before ++ split :: after
  first : FirstLightest split before after
  index : grown.index = split.index
  members : grown.members = split.members.push member
  splits : (next.finished ++ next.opened).Perm (grown :: (state.finished ++ (before ++ after)))
  kept : ∀ other ∈ before ++ after, other ∈ next.opened
  indices : (next.opened.map (·.index)).Sublist (state.opened.map (·.index))

namespace Turn

variable {member : Member} {state next : State} {before after : List Split} {split grown : Split}

theorem present (turn : Turn member state next before after split grown) : split ∈ state.opened := by
  simp [turn.opened]

theorem old (turn : Turn member state next before after split grown) :
    (state.finished ++ state.opened).Perm (split :: (state.finished ++ (before ++ after))) := by
  rw [turn.opened]
  exact middle_perm split before after state.finished

theorem size (turn : Turn member state next before after split grown) :
    grown.size = split.size + 1 := by
  simp [Split.size, turn.members]

theorem bytes (turn : Turn member state next before after split grown) :
    grown.bytes = split.bytes + member.bytes := by
  simp [Split.bytes, turn.members]

end Turn

namespace Placed

variable {cap : Int} {member : Member} {state next : State}

theorem turn (placed : Placed cap member state next) :
    ∃ before after split grown, Turn member state next before after split grown := by
  cases placed with
  | @kept before after finished split first below =>
    refine ⟨before, after, split, split.taking member, rfl, first, rfl, rfl,
      middle_perm _ before after finished, fun other present => mem_middle.mpr (.inr present), ?_⟩
    simp [Split.taking]
  | @closed before after finished split first full =>
    refine ⟨before, after, split, (split.taking member).finalize, rfl, first, rfl, rfl, ?_,
      fun other present => present, ?_⟩
    · simp only [List.append_assoc, List.singleton_append]
      exact List.perm_middle
    · exact ((List.sublist_cons_self split after).append_left before).map _

theorem isOpen (placed : Placed cap member state next) (ready : state.IsOpen cap) :
    next.IsOpen cap := by
  obtain ⟨_, _, _, _, turn⟩ := placed.turn
  have distinct := ready.distinct.sublist turn.indices
  cases placed with
  | @kept before after finished split first below =>
    refine ⟨?_, ?_, ?_, distinct⟩
    · intro other present
      rcases mem_middle.mp present with rfl | present
      · exact Split.isCounted_taking split member
      · exact ready.counted other (mem_middle.mpr (.inr present))
    · intro other present
      rcases mem_middle.mp present with rfl | present
      · exact ready.opened split (by simp)
      · exact ready.opened other (mem_middle.mpr (.inr present))
    · intro other present
      rcases mem_middle.mp present with rfl | present
      · rw [Split.size_taking, Nat.cast_succ]
        exact below
      · exact ready.below other (mem_middle.mpr (.inr present))
  | @closed before after finished split first full =>
    have kept : ∀ other ∈ before ++ after, other ∈ before ++ split :: after :=
      fun other present => mem_middle.mpr (.inr present)
    exact ⟨fun other present => ready.counted other (kept other present),
      fun other present => ready.opened other (kept other present),
      fun other present => ready.below other (kept other present), distinct⟩

theorem inOrder (placed : Placed cap member state next) (ordered : InOrder state.opened) :
    InOrder next.opened := by
  obtain ⟨_, _, _, _, turn⟩ := placed.turn
  exact List.Pairwise.sublist turn.indices ordered

theorem finishes (placed : Placed cap member state next)
    (closed : ∀ split ∈ state.finished,
      split.IsCounted ∧ split.finalized = true ∧ (split.size : Int) = cap) :
    ∀ split ∈ next.finished,
      split.IsCounted ∧ split.finalized = true ∧ (split.size : Int) = cap := by
  cases placed with
  | kept first below => exact closed
  | @closed before after finished split first full =>
    intro other present
    rcases List.mem_append.mp present with present | present
    · exact closed other present
    · rw [List.mem_singleton.mp present]
      refine ⟨(Split.isCounted_taking split member).finalize, rfl, ?_⟩
      rw [← full]
      exact_mod_cast Split.size_taking split member

end Placed

theorem Dealt.step {cap : Int} {count : Nat} {placed : List Member} {member : Member}
    {state next : State} (dealt : Dealt cap count placed state)
    (step : Placed cap member state next) : Dealt cap count (placed ++ [member]) next := by
  obtain ⟨before, after, split, grown, turn⟩ := step.turn
  have level := dealt.level
  rw [turn.opened] at level
  obtain ⟨low, upper, others⟩ := level_taking turn.first (dealt.ready.below split turn.present)
    (fun other present => (dealt.closed other present).2.2) level
  constructor
  case ready => exact step.isOpen dealt.ready
  case closed => exact step.finishes dealt.closed
  case level => exact ⟨low, level_of_perm turn.splits (by rwa [turn.size]) others⟩
  case number =>
    rw [turn.splits.length_eq, ← dealt.number, turn.old.length_eq]
    rfl
  case members => exact members_taking turn.old turn.splits turn.members dealt.members

theorem Dealt.along {cap : Int} {count : Nat} {placed members : List Member} {state last : State}
    (dealt : Dealt cap count placed state) (deals : Deals cap members state last) :
    Dealt cap count (placed ++ members) last := by
  induction deals generalizing placed with
  | done => simpa using dealt
  | next first later ih => simpa using ih (dealt.step first)

theorem Dealt.run {cap : Int} {count : Nat} {placed members : List Member} {state : State}
    (dealt : Dealt cap count placed state) (whole : ∀ member ∈ members, member.IsWhole)
    (fits : ((placed ++ members).length : Int) ≤ count * cap) :
    ∃ last, members.foldlM (place cap) state = .ok last ∧ Deals cap members state last ∧
      Dealt cap count (placed ++ members) last := by
  induction members generalizing placed state with
  | nil => exact ⟨state, rfl, .done, by simpa using dealt⟩
  | cons member rest ih =>
    have fewer : (placed.length : Int) < count * cap := by
      simp only [List.length_append, List.length_cons, Nat.cast_add, Nat.cast_one] at fits
      omega
    obtain ⟨next, placed_ok, step⟩ :=
      place_of_whole dealt.ready (whole member (by simp)) (dealt.room fewer)
    have restWhole : ∀ other ∈ rest, other.IsWhole :=
      fun other present => whole other (List.mem_cons_of_mem _ present)
    obtain ⟨last, run, deals, final⟩ := ih (dealt.step step) restWhole (by simpa using fits)
    refine ⟨last, ?_, .next step deals, by simpa using final⟩
    simp only [List.foldlM_cons, placed_ok, bind, Except.bind]
    exact run

end HarvestPlan.Balance
