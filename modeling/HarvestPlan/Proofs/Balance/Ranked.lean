import HarvestPlan.Proofs.Balance.Spread
import HarvestPlan.Proofs.Balance.Numbered

namespace HarvestPlan.Balance

abbrev Found := Member × Nat

/-- A larger member comes first, and of two as large the one that was found first. -/
def Outranks (a b : Found) : Prop := b.1.bytes < a.1.bytes ∨ a.1.bytes = b.1.bytes ∧ a.2 < b.2

def noLighter (a b : Member) : Bool := b.bytes ≤ a.bytes

def ranked (members : List Member) : List Found :=
  members.zipIdx.mergeSort (List.zipIdxLE noLighter)

theorem noLighter_trans (a b c : Member) (first : noLighter a b = true)
    (second : noLighter b c = true) : noLighter a c = true := by
  simp only [noLighter, decide_eq_true_eq] at first second ⊢
  omega

theorem noLighter_total (a b : Member) : (noLighter a b || noLighter b a) = true := by
  simp only [noLighter, Bool.or_eq_true, decide_eq_true_eq]
  omega

theorem ranked_perm (members : List Member) : (ranked members).Perm members.zipIdx :=
  List.mergeSort_perm _ _

theorem ranked_outranks (members : List Member) : (ranked members).Pairwise Outranks := by
  have sorted : (ranked members).Pairwise fun a b => List.zipIdxLE noLighter a b = true :=
    List.pairwise_mergeSort (List.zipIdxLE_trans noLighter_trans)
      (List.zipIdxLE_total noLighter_total) _
  have apart : (ranked members).Pairwise fun a b => a.2 ≠ b.2 := by
    refine List.pairwise_map.mp (((ranked_perm members).map Prod.snd).nodup_iff.mpr ?_)
    rw [List.zipIdx_map_snd]
    exact List.nodup_range'
  refine (sorted.and apart).imp ?_
  rintro a b ⟨before, differ⟩
  simp only [List.zipIdxLE, noLighter, decide_eq_true_eq] at before
  unfold Outranks
  split at before
  · split at before
    · have earlier := of_decide_eq_true before
      omega
    · omega
  · cases before

theorem ranked_sorted {members : List Member} (whole : ∀ member ∈ members, member.IsWhole) :
    (ranked members).map Prod.fst = sorted members := by
  have alike : members.mergeSort heavierFirst = members.mergeSort noLighter := by
    simpa using List.map_mergeSort (f := id) (s := noLighter) fun a held b otherHeld =>
      heavierFirst_whole (whole a held) (whole b otherHeld)
  rw [sorted, alike]
  exact List.mergeSort_zipIdx

def IsPart (split : Split) (part : List Found) : Prop :=
  split.members.toList = part.map Prod.fst

def EndsBefore (placed a b : List Found) : Prop :=
  ∃ x y, a.getLast? = some x ∧ b.getLast? = some y ∧ [x, y].Sublist placed

/-- What has been placed is shared out to the splits, of which the finished ones got their last items one
    after another. -/
structure IsShared (placed : List Found) (full open_ : List Split)
    (fullParts openParts : List (List Found)) : Prop where
  full : full.Forall₂ IsPart fullParts
  open_ : open_.Forall₂ IsPart openParts
  within : ∀ part ∈ fullParts ++ openParts, part.Sublist placed
  all : (fullParts ++ openParts).flatten.Perm placed
  ends : fullParts.Pairwise (EndsBefore placed)

theorem IsPart.taking {split grown : Split} {part : List Found} {found : Found}
    (isPart : IsPart split part) (members : grown.members = split.members.push found.1) :
    IsPart grown (part ++ [found]) := by
  rw [IsPart, members, Array.toList_push, isPart, List.map_append]
  rfl

theorem EndsBefore.later {placed a b : List Found} (before : EndsBefore placed a b)
    (found : Found) : EndsBefore (placed ++ [found]) a b := by
  obtain ⟨x, y, last, otherLast, pair⟩ := before
  exact ⟨x, y, last, otherLast, pair.trans (List.sublist_append_left _ _)⟩

theorem endsBefore_new {placed a b : List Found} (within : a.Sublist placed) (some_ : a ≠ [])
    (found : Found) : EndsBefore (placed ++ [found]) a (b ++ [found]) := by
  have last := List.getLast?_eq_some_getLast some_
  have held := within.subset (List.getLast_mem some_)
  exact ⟨_, found, last, List.getLast?_concat,
    (List.singleton_sublist.mpr held).append (List.Sublist.refl [found])⟩

section

variable {old new rest : List (List Found)} {part placed : List Found} {found : Found}

theorem within_taking (before : old.Perm (part :: rest))
    (after : new.Perm ((part ++ [found]) :: rest)) (within : ∀ part ∈ old, part.Sublist placed) :
    ∀ other ∈ new, other.Sublist (placed ++ [found]) := by
  intro other present
  rcases List.mem_cons.mp (after.mem_iff.mp present) with rfl | kept
  · have held := within part (before.mem_iff.mpr List.mem_cons_self)
    exact held.append (List.Sublist.refl [found])
  · have held := within other (before.mem_iff.mpr (List.mem_cons_of_mem _ kept))
    exact held.trans (List.sublist_append_left _ _)

theorem flatten_taking (before : old.Perm (part :: rest))
    (after : new.Perm ((part ++ [found]) :: rest)) (all : old.flatten.Perm placed) :
    new.flatten.Perm (placed ++ [found]) := by
  have held := (before.flatten.symm.trans all).append_right [found]
  have holds := after.flatten
  rw [List.flatten_cons, List.append_assoc] at held holds
  exact holds.trans ((List.perm_append_comm.append_left part).trans held)

end

theorem IsShared.step {cap : Int} {placed : List Found} {found : Found} {state next : State}
    {fullParts openParts : List (List Found)}
    (shared : IsShared placed state.finished state.opened fullParts openParts)
    (filled : ∀ split ∈ state.finished, split.members.toList ≠ [])
    (step : Placed cap found.1 state next) :
    ∃ fullNext openNext, IsShared (placed ++ [found]) next.finished next.opened fullNext openNext := by
  cases step with
  | @kept before after finished split first below =>
    obtain ⟨front, part, back, rfl, frontParts, isPart, backParts⟩ :=
      Lists.exists_middle shared.open_
    have earlier := middle_perm part front back fullParts
    have later := middle_perm (part ++ [found]) front back fullParts
    refine ⟨fullParts, front ++ (part ++ [found]) :: back, shared.full, ?_,
      within_taking earlier later shared.within, flatten_taking earlier later shared.all,
      shared.ends.imp fun before => before.later found⟩
    exact List.rel_append frontParts (.cons (isPart.taking rfl) backParts)
  | @closed before after finished split first full =>
    obtain ⟨front, part, back, rfl, frontParts, isPart, backParts⟩ :=
      Lists.exists_middle shared.open_
    have earlier := middle_perm part front back fullParts
    have later : (fullParts ++ [part ++ [found]] ++ (front ++ back)).Perm
        ((part ++ [found]) :: (fullParts ++ (front ++ back))) := by
      rw [List.append_assoc]
      exact List.perm_middle
    refine ⟨fullParts ++ [part ++ [found]], front ++ back, ?_, List.rel_append frontParts backParts,
      within_taking earlier later shared.within, flatten_taking earlier later shared.all, ?_⟩
    · exact List.rel_append shared.full (.cons (isPart.taking rfl) .nil)
    · refine List.pairwise_append.mpr
        ⟨shared.ends.imp fun before => before.later found, List.pairwise_singleton _ _, ?_⟩
      intro other there _ last
      rw [List.mem_singleton.mp last]
      refine endsBefore_new (shared.within other (List.mem_append_left _ there)) ?_ found
      obtain ⟨done, held, otherPart⟩ := Lists.exists_left shared.full there
      rintro rfl
      exact filled done held otherPart

theorem Dealt.filled {cap : Int} {count : Nat} {placed : List Member} {state : State}
    (positive : 1 ≤ cap) (dealt : Dealt cap count placed state) :
    ∀ split ∈ state.finished, split.members.toList ≠ [] := by
  intro split present none
  have full := (dealt.closed split present).2.2
  have empty : split.size = 0 := by
    rw [Split.size, ← Array.length_toList, none]
    rfl
  omega

theorem IsShared.run {cap : Int} {count : Nat} {already : List Member} {placed found : List Found}
    {state last : State} {fullParts openParts : List (List Found)} (positive : 1 ≤ cap)
    (dealt : Dealt cap count already state)
    (shared : IsShared placed state.finished state.opened fullParts openParts)
    (deals : Deals cap (found.map Prod.fst) state last) :
    ∃ fullLast openLast, IsShared (placed ++ found) last.finished last.opened fullLast openLast := by
  induction found generalizing already placed state fullParts openParts with
  | nil =>
    cases deals
    exact ⟨fullParts, openParts, by simpa using shared⟩
  | cons item rest ih =>
    cases deals with
    | next first later =>
      obtain ⟨_, _, next⟩ := shared.step (dealt.filled positive) first
      obtain ⟨fullLast, openLast, ended⟩ := ih (dealt.step first) next later
      exact ⟨fullLast, openLast, by simpa using ended⟩

theorem isShared_start (count : Nat) :
    IsShared [] (State.start count).finished (State.start count).opened []
      (List.replicate count []) where
  full := .nil
  open_ := by
    have empty : (List.range count).map (fun _ => ([] : List Found)) = List.replicate count [] := by
      simp
    rw [← empty, State.start, unfilled, List.forall₂_map_left_iff, List.forall₂_map_right_iff,
      List.forall₂_same]
    exact fun _ _ => rfl
  within := by
    intro part present
    rw [List.eq_of_mem_replicate present]
  all := by simp
  ends := .nil

theorem IsShared.finalize {placed : List Found} {full open_ : List Split}
    {fullParts openParts : List (List Found)} (shared : IsShared placed full open_ fullParts openParts) :
    IsShared placed full (open_.map (·.finalize)) fullParts openParts :=
  { shared with open_ := List.forall₂_map_left_iff.mpr shared.open_ }

theorem Deals.ordered {cap : Int} {members : List Member} {state last : State}
    (deals : Deals cap members state last) (ordered : InOrder state.opened) :
    InOrder last.opened := by
  induction deals with
  | done => exact ordered
  | next first later ih => exact ih (first.inOrder ordered)

/-- The splits of a plan are those at the cap, in the order of their last members, and then the others by
    ascending number. Each has a part of the ranked members, in their order. -/
structure IsInSequence (members : List Member) (cap : Int) (plan : Plan) (full open_ : List Split) :
    Prop where
  splits : plan.splits = full ++ open_
  numbers : (plan.splits.map (·.index)).Perm ((List.range plan.size).map fun i : Nat => .int i)
  atCap : ∀ split ∈ full, split.load = .int cap
  belowCap : ∀ split ∈ open_, split.load ≠ .int cap
  ascends : InOrder open_
  shared : ∃ fullParts openParts, IsShared (ranked members) full open_ fullParts openParts

theorem Dealt.loads {cap : Int} {count : Nat} {placed : List Member} {state : State}
    (dealt : Dealt cap count placed state) :
    (∀ split ∈ state.finished, split.load = .int cap) ∧
      ∀ split ∈ state.opened, split.load ≠ .int cap := by
  constructor
  · intro split present
    obtain ⟨counted, -, full⟩ := dealt.closed split present
    rw [counted.load, full]
  · intro split present same
    have below := dealt.ready.below split present
    rw [(dealt.ready.counted split present).load, Json.Value.int.injEq] at same
    omega

/-- Members are ranked by size first and discovery second, and in a plan their order is kept within each
    split and among the splits that reach the cap. -/
theorem plan_isInSequence (members : List Member) (cap : Int)
    (whole : ∀ member ∈ members, member.IsWhole) (positive : 1 ≤ cap) :
    ∃ plan full open_, Balance.plan members cap = .ok plan ∧
      sort members = .ok ((ranked members).map Prod.fst) ∧ (ranked members).Pairwise Outranks ∧
      IsInSequence members cap plan full open_ := by
  obtain ⟨count, state, planned, -, deals, dealt⟩ := plan_deals whole positive
  obtain ⟨atCap, belowCap⟩ := dealt.loads
  have sorts := ranked_sorted whole
  refine ⟨_, state.finished, state.opened.map (·.finalize), planned, ?_, ranked_outranks members, ?_⟩
  · rw [sorts, sort_of_whole whole]
  constructor
  case splits => rfl
  case numbers =>
    obtain ⟨full, open_, splits, numbered, -⟩ := plan_arranged planned
    have numbers := numbered.numbers
    rwa [← splits] at numbers
  case atCap => exact atCap
  case belowCap =>
    intro split present
    obtain ⟨held, inside, rfl⟩ := List.mem_map.mp present
    exact belowCap held inside
  case ascends =>
    simpa [InOrder, Function.comp_def, Split.finalize] using deals.ordered (inOrder_start count)
  case shared =>
    rw [← sorts] at deals
    obtain ⟨fullParts, openParts, shared⟩ :=
      (isShared_start count).run positive (dealt_start positive count) deals
    exact ⟨fullParts, openParts, shared.finalize⟩

theorem plan_isInSequence_five_files :
    (∀ member ∈ [file "a" 4, file "b" 0, file "c" 7, file "d" 4, file "e" 1], member.IsWhole) ∧
      (1 : Int) ≤ 2 ∧
      ∃ plan full open_,
        Balance.plan [file "a" 4, file "b" 0, file "c" 7, file "d" 4, file "e" 1] 2 = .ok plan ∧
        sort [file "a" 4, file "b" 0, file "c" 7, file "d" 4, file "e" 1] =
          .ok ((ranked [file "a" 4, file "b" 0, file "c" 7, file "d" 4, file "e" 1]).map Prod.fst) ∧
        (ranked [file "a" 4, file "b" 0, file "c" 7, file "d" 4, file "e" 1]).Pairwise Outranks ∧
        IsInSequence [file "a" 4, file "b" 0, file "c" 7, file "d" 4, file "e" 1] 2 plan full open_ := by
  have whole : ∀ member ∈ [file "a" 4, file "b" 0, file "c" 7, file "d" 4, file "e" 1],
      member.IsWhole := by
    simp [file_isWhole]
  exact ⟨whole, by decide, plan_isInSequence _ 2 whole (by decide)⟩

end HarvestPlan.Balance
