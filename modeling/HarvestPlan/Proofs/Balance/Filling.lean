import HarvestPlan.Proofs.Balance.Numbered

/-!
The order in which splits reach the cap. By the time that the first of them does so all others lack one
member, and then the lightest goes first. Main statement: in a plan the splits at the cap stand by the
bytes that they had before their last member, and of as many bytes by ascending number.
-/
namespace HarvestPlan.Balance

def RanksBefore (a b : Int × Json.Value) : Prop :=
  a.1 < b.1 ∨ a.1 = b.1 ∧ ∃ i j : Nat, a.2 = .int i ∧ b.2 = .int j ∧ i < j

def rank (split : Split) : Int × Json.Value := (split.bytes, split.index)

def rankBefore (split : Split) : Int × Json.Value :=
  ((split.members.pop.toList.map Member.bytes).sum, split.index)

theorem rankBefore_taking (split : Split) (member : Member) :
    rankBefore (split.taking member).finalize = rank split := by
  simp [rankBefore, rank, Split.bytes, Split.taking, Split.finalize]

theorem FirstLightest.ranksBefore {before after : List Split} {split other : Split}
    (first : FirstLightest split before after) (ordered : InOrder (before ++ split :: after))
    (present : other ∈ before ++ after) (sizes : split.size = other.size) :
    RanksBefore (rank split) (rank other) := by
  rcases List.mem_append.mp present with present | present
  · have strict := first.before other present
    rw [Split.key, Split.key, Prod.Lex.toLex_lt_toLex] at strict
    rcases strict with smaller | ⟨-, lighter⟩
    · exact absurd sizes (Nat.ne_of_lt smaller)
    · exact .inl lighter
  · obtain ⟨-, ordered, -⟩ := List.pairwise_append.mp (List.pairwise_map.mp ordered)
    have lower := (List.pairwise_cons.mp ordered).1 other present
    have atMost := Split.bytes_le_of_key_le (first.after other present) sizes.symm
    rcases atMost.lt_or_eq with less | same
    · exact .inl less
    · exact .inr ⟨same, lower⟩

/-- The finished splits stand in the order in which they were the lightest, and all of them were so before
    the splits that are open still. -/
structure IsFilling (state : State) : Prop where
  finished : state.finished.Pairwise fun a b => RanksBefore (rankBefore a) (rankBefore b)
  waiting : ∀ done ∈ state.finished, ∀ split ∈ state.opened,
    RanksBefore (rankBefore done) (rank split)

theorem isFilling_start (count : Nat) : IsFilling (State.start count) :=
  ⟨.nil, fun _ present => nomatch present⟩

theorem Dealt.lacksOne {cap : Int} {count : Nat} {placed : List Member} {state : State}
    (dealt : Dealt cap count placed state) {done split : Split} (finished : done ∈ state.finished)
    (present : split ∈ state.opened) : (split.size + 1 : Int) = cap := by
  obtain ⟨low, level⟩ := dealt.level
  have full := (dealt.closed done finished).2.2
  have below := dealt.ready.below split present
  have sizeDone := level _ (List.mem_map_of_mem (List.mem_append_left _ finished))
  have size := level _ (List.mem_map_of_mem (List.mem_append_right _ present))
  omega

theorem IsFilling.step {cap : Int} {count : Nat} {placed : List Member} {member : Member}
    {state next : State} (filling : IsFilling state) (dealt : Dealt cap count placed state)
    (ordered : InOrder state.opened) (step : Placed cap member state next) : IsFilling next := by
  cases step with
  | @kept before after finished split first below =>
    -- A split that still lacks a member after this one shows that none is finished.
    refine ⟨filling.finished, fun done there => ?_⟩
    have lacks := dealt.lacksOne there (mem_middle.mpr (.inl rfl))
    omega
  | @closed before after finished split first full =>
    constructor
    · refine List.pairwise_append.mpr ⟨filling.finished, List.pairwise_singleton _ _, ?_⟩
      intro done there last new
      rw [List.mem_singleton.mp new, rankBefore_taking]
      exact filling.waiting done there split (mem_middle.mpr (.inl rfl))
    · intro done there other present
      rcases List.mem_append.mp there with there | new
      · exact filling.waiting done there other (mem_middle.mpr (.inr present))
      · rw [List.mem_singleton.mp new, rankBefore_taking]
        have atLeast := Split.size_le_of_key_le (first.least other present)
        have below := dealt.ready.below other (mem_middle.mpr (.inr present))
        exact first.ranksBefore ordered present (by omega)

theorem IsFilling.run {cap : Int} {count : Nat} {placed members : List Member} {state last : State}
    (filling : IsFilling state) (dealt : Dealt cap count placed state)
    (ordered : InOrder state.opened) (deals : Deals cap members state last) : IsFilling last := by
  induction deals generalizing placed with
  | done => exact filling
  | next first later ih =>
    exact ih (filling.step dealt ordered first) (dealt.step first) (first.inOrder ordered)

theorem Dealt.atCap {cap : Int} {count : Nat} {placed : List Member} {state : State}
    (dealt : Dealt cap count placed state) :
    state.splits.filter (fun split => (split.size : Int) = cap) = state.finished := by
  have full : state.finished.filter (fun split => (split.size : Int) = cap) = state.finished := by
    rw [List.filter_eq_self]
    intro split present
    simpa using (dealt.closed split present).2.2
  have below : (state.opened.map (·.finalize)).filter (fun split => (split.size : Int) = cap) = [] := by
    rw [List.filter_eq_nil_iff]
    intro split present
    obtain ⟨held, inside, rfl⟩ := List.mem_map.mp present
    exact fun same => (dealt.ready.below held inside).ne (of_decide_eq_true same)
  rw [State.splits, List.filter_append, full, below, List.append_nil]

theorem plan_fills {members : List Member} {cap : Int} {plan : Plan}
    (whole : ∀ member ∈ members, member.IsWhole)
    (planned : Balance.plan members cap = .ok plan) :
    (plan.splits.filter fun split => (split.size : Int) = cap).Pairwise
      fun a b => RanksBefore (rankBefore a) (rankBefore b) := by
  have positive := plan_ok_positive planned
  obtain ⟨count, state, same, -, deals, dealt⟩ := plan_deals whole positive
  cases same.symm.trans planned
  have filling := (isFilling_start count).run (dealt_start positive count) (inOrder_start count) deals
  change (state.splits.filter _).Pairwise _
  rw [dealt.atCap]
  exact filling.finished

end HarvestPlan.Balance
