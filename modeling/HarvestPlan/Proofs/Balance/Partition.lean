import HarvestPlan.Proofs.Balance.OnTop
import HarvestPlan.Proofs.Outcome

namespace HarvestPlan.Balance

theorem numSplits_isLeast {total cap : Int} (positive : 1 ≤ cap) (counted : 0 ≤ total) :
    ∃ count, numSplits total cap = .ok count ∧ IsLeast {k : Nat | total ≤ k * cap} count := by
  by_cases none : total = 0
  · refine ⟨0, ?_, ?_⟩
    · simp [numSplits, show ¬cap < 1 by omega, none]
    · exact ⟨by simp [none], fun k _ => Nat.zero_le k⟩
  · have quotient : 0 ≤ (total - 1) / cap := Int.ediv_nonneg (by omega) (by omega)
    refine ⟨((total - 1) / cap + 1).toNat, ?_, ?_, ?_⟩
    · simp [numSplits, show ¬cap < 1 by omega, show ¬total ≤ 0 by omega]
    · have fits := Int.lt_ediv_add_one_mul_self (total - 1) (show 0 < cap by omega)
      rw [Set.mem_ofPred_eq, Int.toNat_of_nonneg (by omega)]
      omega
    · intro k enough
      rw [Set.mem_ofPred_eq] at enough
      have below : (total - 1) / cap < k := Int.ediv_lt_of_lt_mul (by omega) (by omega)
      omega

theorem plan_ok_positive {members : List Member} {cap : Int} {plan : Plan}
    (planned : Balance.plan members cap = .ok plan) : 1 ≤ cap := by
  obtain ⟨count, counted, -⟩ := Outcome.bind_ok planned
  unfold numSplits at counted
  split at counted
  · cases counted
  · omega

theorem plan_deals {members : List Member} {cap : Int}
    (whole : ∀ member ∈ members, member.IsWhole) (positive : 1 ≤ cap) :
    ∃ count state, Balance.plan members cap = .ok ⟨state.splits, .int cap⟩ ∧
      IsLeast {k : Nat | (members.length : Int) ≤ k * cap} count ∧
      Deals cap (sorted members) (State.start count) state ∧
      Dealt cap count (sorted members) state := by
  obtain ⟨count, counted, least⟩ :=
    numSplits_isLeast positive (show (0 : Int) ≤ members.length by omega)
  by_cases none : count = 0
  · have fits := least.1
    rw [none, Set.mem_ofPred_eq, Nat.cast_zero, zero_mul] at fits
    have empty : members = [] := List.eq_nil_of_length_eq_zero (by omega)
    subst none empty
    have sortedNil : sorted [] = [] := by simp [sorted]
    refine ⟨0, State.start 0, ?_, least, by simpa [sortedNil] using Deals.done,
      by simpa [sortedNil] using dealt_start positive 0⟩
    rw [plan_of_whole whole, counted]
    rfl
  · have wholeSorted : ∀ member ∈ sorted members, member.IsWhole :=
      fun member present => whole member ((sorted_perm members).mem_iff.mp present)
    have room : (([] ++ sorted members).length : Int) ≤ count * cap := by
      rw [List.nil_append, (sorted_perm members).length_eq]
      exact least.1
    obtain ⟨last, run, deals, dealt⟩ := (dealt_start positive count).run wholeSorted room
    refine ⟨count, last, ?_, least, deals, dealt⟩
    simp only [plan_of_whole whole, counted, deal, run, bind, Except.bind, if_neg none]
    rfl

theorem plan_dealt {members : List Member} {cap : Int}
    (whole : ∀ member ∈ members, member.IsWhole) (positive : 1 ≤ cap) :
    ∃ count state, Balance.plan members cap = .ok ⟨state.splits, .int cap⟩ ∧
      IsLeast {k : Nat | (members.length : Int) ≤ k * cap} count ∧
      Dealt cap count (sorted members) state := by
  obtain ⟨count, state, planned, least, -, dealt⟩ := plan_deals whole positive
  exact ⟨count, state, planned, least, dealt⟩

theorem plan_of_sorted {members : List Member} {cap : Int} {count : Nat} {splits : List Split}
    (whole : ∀ member ∈ members, member.IsWhole)
    (descends : members.Pairwise fun a b => heavierFirst a b = true)
    (counted : numSplits members.length cap = .ok count) (some : count ≠ 0)
    (dealt : deal cap count members = .ok splits) :
    Balance.plan members cap = .ok ⟨splits, .int cap⟩ := by
  have unmoved : sorted members = members := List.mergeSort_of_pairwise descends
  simp only [plan_of_whole whole, counted, unmoved, dealt, bind, Except.bind, if_neg some]
  rfl

theorem Dealt.splits_cases {cap : Int} {count : Nat} {placed : List Member} {state : State}
    (dealt : Dealt cap count placed state) {split : Split} (present : split ∈ state.splits) :
    split.finalized = true ∧ split.IsCounted ∧ (split.size : Int) ≤ cap ∧
      ∃ held ∈ state.finished ++ state.opened, split.size = held.size := by
  rcases List.mem_append.mp present with present | present
  · obtain ⟨counted, finalized, full⟩ := dealt.closed split present
    exact ⟨finalized, counted, full.le, split, List.mem_append_left _ present, rfl⟩
  · obtain ⟨held, held_mem, rfl⟩ := List.mem_map.mp present
    exact ⟨rfl, (dealt.ready.counted held held_mem).finalize, (dealt.ready.below held held_mem).le,
      held, List.mem_append_right _ held_mem, rfl⟩

theorem Dealt.splits_members {cap : Int} {count : Nat} {placed : List Member} {state : State}
    (dealt : Dealt cap count placed state) :
    (state.splits.flatMap (·.members.toList)).Perm placed := by
  have same : state.splits.flatMap (·.members.toList) =
      (state.finished ++ state.opened).flatMap (·.members.toList) := by
    simp [State.splits, Split.finalize, List.flatMap_map]
  rw [same]
  exact dealt.members

theorem plan_counted {members : List Member} {cap : Int} {plan : Plan}
    (whole : ∀ member ∈ members, member.IsWhole) (planned : Balance.plan members cap = .ok plan)
    {split : Split} (present : split ∈ plan.splits) :
    split.IsCounted ∧ ∀ member ∈ split.members.toList, member ∈ members := by
  obtain ⟨count, state, same, -, dealt⟩ := plan_dealt whole (plan_ok_positive planned)
  cases same.symm.trans planned
  refine ⟨(dealt.splits_cases present).2.1, fun member held => ?_⟩
  have placed := dealt.splits_members.mem_iff.mp (List.mem_flatMap.mpr ⟨split, present, held⟩)
  exact (sorted_perm members).mem_iff.mp placed

theorem Dealt.splits_length {cap : Int} {count : Nat} {placed : List Member} {state : State}
    (dealt : Dealt cap count placed state) : state.splits.length = count := by
  rw [← dealt.number]
  simp [State.splits]

/-- A plan that deals its members out evenly: it has as few splits as the cap allows, all of them
    finalized with counters that describe their members, and every member is in one of them. -/
structure IsPartition (members : List Member) (cap : Int) (plan : Plan) : Prop where
  fewest : IsLeast {k : Nat | (members.length : Int) ≤ k * cap} plan.size
  finalized : ∀ split ∈ plan.splits, split.finalized = true
  load : ∀ split ∈ plan.splits, split.load = .int split.size
  total : ∀ split ∈ plan.splits,
    split.totalBytes = .int (split.members.toList.map Member.bytes).sum
  covered : (plan.splits.flatMap (·.members.toList)).Perm members
  average : ∀ split ∈ plan.splits, split.size = members.length / plan.size ∨
    split.size = (members.length + plan.size - 1) / plan.size
  level : ∀ a ∈ plan.splits, ∀ b ∈ plan.splits, a.size ≤ b.size + 1
  withinCap : ∀ split ∈ plan.splits, (split.size : Int) ≤ cap

/-- Balancing whole members never runs out of open splits, and deals them out evenly. -/
theorem plan_isPartition (members : List Member) (cap : Int)
    (whole : ∀ member ∈ members, member.IsWhole) (positive : 1 ≤ cap) :
    ∃ plan, Balance.plan members cap = .ok plan ∧ IsPartition members cap plan := by
  obtain ⟨count, state, planned, least, dealt⟩ := plan_dealt whole positive
  have size : (Plan.mk state.splits (.int cap)).size = count := dealt.splits_length
  refine ⟨_, planned, ?_⟩
  constructor
  case fewest => rwa [size]
  case finalized => exact fun split present => (dealt.splits_cases present).1
  case load => exact fun split present => (dealt.splits_cases present).2.1.load
  case total => exact fun split present => (dealt.splits_cases present).2.1.total
  case covered => exact dealt.splits_members.trans (sorted_perm members)
  case average =>
    intro split present
    obtain ⟨-, -, -, held, held_mem, same⟩ := dealt.splits_cases present
    have average := dealt.average held_mem
    rwa [← same, (sorted_perm members).length_eq, ← size] at average
  case level =>
    intro a a_mem b b_mem
    obtain ⟨-, -, -, heldA, heldA_mem, sameA⟩ := dealt.splits_cases a_mem
    obtain ⟨-, -, -, heldB, heldB_mem, sameB⟩ := dealt.splits_cases b_mem
    obtain ⟨low, level⟩ := dealt.level
    have levelA := level _ (List.mem_map_of_mem heldA_mem)
    have levelB := level _ (List.mem_map_of_mem heldB_mem)
    omega
  case withinCap => exact fun split present => (dealt.splits_cases present).2.2.1

def file (name : String) (size : Int) : Member :=
  .entry ⟨.str name, .str ("/data/" ++ name), .int size, .int 0, .str "alice", .bool false, name,
    .int 0o644, .localFiles (.str "file:///")⟩

theorem file_isWhole (name : String) (size : Int) : (file name size).IsWhole := ⟨size, rfl⟩

theorem plan_isPartition_five_files :
    (∀ member ∈ [file "a" 4, file "b" 0, file "c" 7, file "d" 4, file "e" 1], member.IsWhole) ∧
      (1 : Int) ≤ 2 ∧
      ∃ plan, Balance.plan [file "a" 4, file "b" 0, file "c" 7, file "d" 4, file "e" 1] 2 =
          .ok plan ∧
        IsPartition [file "a" 4, file "b" 0, file "c" 7, file "d" 4, file "e" 1] 2 plan := by
  have whole : ∀ member ∈ [file "a" 4, file "b" 0, file "c" 7, file "d" 4, file "e" 1],
      member.IsWhole := by
    simp [file_isWhole]
  exact ⟨whole, by decide, plan_isPartition _ 2 whole (by decide)⟩

end HarvestPlan.Balance
