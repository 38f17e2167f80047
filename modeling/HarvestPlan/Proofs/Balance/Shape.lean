import HarvestPlan.Proofs.Beside
import HarvestPlan.Proofs.Balance.Spread

/-!
Plans of one shape: members of the same integer sizes, in whatever order they are given, are dealt out
to splits of which each is like the one at its place in the other plan. Which members a split holds is
not looked at while dealing, so two runs over members of the same sizes stay side by side.
-/
namespace HarvestPlan

open Outcome (Beside)

/-- Two splits that differ only in which members they hold, but not in the sizes of these. -/
structure Split.SameShape (split other : Split) : Prop where
  index : other.index = split.index
  load : other.load = split.load
  totalBytes : other.totalBytes = split.totalBytes
  sizes : other.members.toList.map Member.size? = split.members.toList.map Member.size?
  finalized : other.finalized = split.finalized

def Member.SameSize (member other : Member) : Prop := other.size? = member.size?

namespace Split.SameShape

variable {split other : Split} {member further : Member}

theorem refl (split : Split) : split.SameShape split := ⟨rfl, rfl, rfl, rfl, rfl⟩

theorem finalize (same : split.SameShape other) : split.finalize.SameShape other.finalize :=
  ⟨same.index, same.load, same.totalBytes, same.sizes, rfl⟩

theorem size (same : split.SameShape other) : other.size = split.size := by
  simpa [Split.size] using congrArg List.length same.sizes

theorem added (same : split.SameShape other) (weighs : member.SameSize further) :
    Beside SameShape (split.added member) (other.added further) := by
  have sizes : (other.members.push further).toList.map Member.size? =
      (split.members.push member).toList.map Member.size? := by
    rw [Array.toList_push, Array.toList_push, List.map_append, List.map_append, same.sizes]
    exact congrArg _ (congrArg ([·]) weighs)
  unfold Split.added Split.add
  rw [same.finalized, same.load, same.index, same.totalBytes, weighs]
  cases split.finalized with
  | true => exact .error _
  | false =>
    cases nextLoad split.load with
    | error failure => exact .error failure
    | ok load =>
      cases member.size? with
      | none => exact .error _
      | some size =>
        dsimp only
        cases split.totalBytes.add? size with
        | none => exact .error _
        | some total => exact .ok ⟨rfl, rfl, rfl, sizes, rfl⟩

end Split.SameShape

namespace Balance

open Split (SameShape)

variable {splits others : List Split} {a b c d : Split}

theorem lighter_sameShape (left : a.SameShape c) (right : b.SameShape d) :
    lighter c d = lighter a b := by
  unfold lighter
  rw [left.size, right.size, left.totalBytes, right.totalBytes]

theorem lightest_sameShape (alike : splits.Forall₂ SameShape others) :
    Option.Rel SameShape (lightest splits) (lightest others) := by
  induction alike with
  | nil => exact .none
  | @cons split other _ _ same _ ih =>
    unfold lightest
    generalize lightest _ = least at ih ⊢
    generalize lightest _ = otherLeast at ih ⊢
    cases ih with
    | none => exact .some same
    | some sameLeast =>
      dsimp only
      rw [lighter_sameShape sameLeast same]
      split
      · exact .some sameLeast
      · exact .some same

theorem replace_sameShape (same : a.SameShape b) (alike : splits.Forall₂ SameShape others) :
    (replace a splits).Forall₂ SameShape (replace b others) := by
  refine List.rel_map ?_ alike
  intro split other sameSplit
  dsimp only
  rw [sameSplit.index, same.index]
  split
  · exact same
  · exact sameSplit

theorem remove_sameShape (index : Json.Value) (alike : splits.Forall₂ SameShape others) :
    (remove index splits).Forall₂ SameShape (remove index others) := by
  refine List.rel_filter ?_ alike
  intro split other same
  simp only [same.index]

theorem finalize_sameShape (alike : splits.Forall₂ SameShape others) :
    (splits.map (·.finalize)).Forall₂ SameShape (others.map (·.finalize)) :=
  List.rel_map (fun _ _ same => same.finalize) alike

structure State.SameShape (state other : State) : Prop where
  opened : state.opened.Forall₂ Split.SameShape other.opened
  finished : state.finished.Forall₂ Split.SameShape other.finished

/-- A placement sees the shape of a state and the size of a member only. -/
theorem place_sameShape (cap : Int) (state other : State) (member further : Member)
    (same : state.SameShape other) (weighs : member.SameSize further) :
    Beside State.SameShape (place cap state member) (place cap other further) := by
  have least := lightest_sameShape same.opened
  unfold place
  generalize lightest state.opened = here at least ⊢
  generalize lightest other.opened = there at least ⊢
  cases least with
  | none => exact .error _
  | some sameLeast =>
    refine (sameLeast.added weighs).bind fun grown otherGrown sameGrown => ?_
    rw [sameGrown.size, sameGrown.index]
    split
    · refine .ok ⟨remove_sameShape _ same.opened, ?_⟩
      exact List.rel_append same.finished (.cons sameGrown.finalize .nil)
    · exact .ok ⟨replace_sameShape sameGrown same.opened, same.finished⟩

theorem deal_sameShape (cap : Int) (count : Nat) {members further : List Member}
    (weigh : members.Forall₂ Member.SameSize further) :
    Beside (List.Forall₂ SameShape) (deal cap count members) (deal cap count further) := by
  have start : (State.start count).SameShape (State.start count) :=
    ⟨List.forall₂_same.mpr fun split _ => .refl split, .nil⟩
  refine (Outcome.Beside.foldlM₂ (place_sameShape cap) weigh start).bind fun last other same => ?_
  exact .ok (List.rel_append same.finished (finalize_sameShape same.opened))

variable {members further : List Member}

theorem sizes_of_whole (whole : ∀ member ∈ members, member.IsWhole) :
    members.map Member.size? = (members.map Member.bytes).map fun n => some (.int n) := by
  rw [List.map_map]
  exact List.map_congr_left fun member present => (whole member present).size

theorem whole_of_perm (whole : ∀ member ∈ members, member.IsWhole)
    (perm : (members.map Member.size?).Perm (further.map Member.size?)) :
    ∀ member ∈ further, member.IsWhole := by
  intro member present
  obtain ⟨other, held, same⟩ := List.mem_map.mp (perm.mem_iff.mpr (List.mem_map_of_mem present))
  obtain ⟨n, size⟩ := whole other held
  exact ⟨n, same ▸ size⟩

theorem sorted_sameSize (whole : ∀ member ∈ members, member.IsWhole)
    (perm : (members.map Member.size?).Perm (further.map Member.size?)) :
    (sorted members).Forall₂ Member.SameSize (sorted further) := by
  have otherWhole := whole_of_perm whole perm
  have rearranged : ((sorted members).map Member.bytes).Perm ((sorted further).map Member.bytes) := by
    rw [sizes_of_whole whole, sizes_of_whole otherWhole] at perm
    have bytes : (members.map Member.bytes).Perm (further.map Member.bytes) := by
      refine (List.map_perm_map_iff ?_).mp perm
      intro n m same
      simpa using same
    exact (((sorted_perm members).map _).trans bytes).trans ((sorted_perm further).map _).symm
  have bytes : (sorted members).map Member.bytes = (sorted further).map Member.bytes := by
    have descends : ((sorted members).map Member.bytes).Pairwise fun a b => b ≤ a :=
      List.pairwise_map.mpr (sorted_descends whole)
    have otherDescends : ((sorted further).map Member.bytes).Pairwise fun a b => b ≤ a :=
      List.pairwise_map.mpr (sorted_descends otherWhole)
    exact rearranged.eq_of_pairwise (fun a b _ _ least most => le_antisymm most least) descends
      otherDescends
  have sizes : (sorted members).map Member.size? = (sorted further).map Member.size? := by
    rw [sizes_of_whole fun member present => whole member ((sorted_perm _).mem_iff.mp present),
      sizes_of_whole fun member present => otherWhole member ((sorted_perm _).mem_iff.mp present),
      bytes]
  have beside := List.forall₂_eq_eq_eq ▸ sizes
  rw [List.forall₂_map_left_iff, List.forall₂_map_right_iff] at beside
  exact beside.imp fun _ _ same => same.symm

end Balance

structure Plan.SameShape (plan other : Plan) : Prop where
  size : other.size = plan.size
  splits : plan.splits.Forall₂ Split.SameShape other.splits
  cap : other.cap = plan.cap

namespace Balance

theorem plan_beside {members further : List Member} (cap : Int)
    (whole : ∀ member ∈ members, member.IsWhole)
    (perm : (members.map Member.size?).Perm (further.map Member.size?)) :
    Beside Plan.SameShape (Balance.plan members cap) (Balance.plan further cap) := by
  have count : further.length = members.length := by
    simpa using perm.length_eq.symm
  rw [plan_of_whole whole, plan_of_whole (whole_of_perm whole perm), count]
  cases numSplits members.length cap with
  | error failure => exact .error failure
  | ok count =>
    simp only [bind, Except.bind]
    split
    · exact .ok ⟨rfl, .nil, rfl⟩
    · have dealt := deal_sameShape cap count (sorted_sameSize whole perm)
      generalize deal cap count (sorted members) = here at dealt ⊢
      generalize deal cap count (sorted further) = there at dealt ⊢
      cases dealt with
      | error failure => exact .error failure
      | ok alike => exact .ok ⟨alike.length_eq.symm, alike, rfl⟩

/-- The shape of a plan depends on the sizes only, and not on their order. -/
theorem plan_sameShape {members further : List Member} {cap : Int}
    (whole : ∀ member ∈ members, member.IsWhole)
    (perm : (members.map Member.size?).Perm (further.map Member.size?)) (positive : 1 ≤ cap) :
    ∃ plan other, Balance.plan members cap = .ok plan ∧ Balance.plan further cap = .ok other ∧
      plan.SameShape other := by
  obtain ⟨-, state, planned, -⟩ := plan_dealt whole positive
  have beside := plan_beside cap whole perm
  rw [planned] at beside
  cases otherPlanned : Balance.plan further cap with
  | error failure =>
    rw [otherPlanned] at beside
    cases beside
  | ok other =>
    rw [otherPlanned] at beside
    cases beside with
    | ok same => exact ⟨_, other, planned, rfl, same⟩

def fiveFiles : List Member := [file "a" 4, file "b" 0, file "c" 7, file "d" 4, file "e" 1]

def likeFiveFiles : List Member :=
  [file "v" 1, file "w" 4, .unreadable (.str "x") (.str "no file"), file "y" 7, file "z" 4]

theorem plan_sameShape_five_files :
    (∀ member ∈ fiveFiles, member.IsWhole) ∧
      (fiveFiles.map Member.size?).Perm (likeFiveFiles.map Member.size?) ∧ (1 : Int) ≤ 2 ∧
      ∃ plan other, Balance.plan fiveFiles 2 = .ok plan ∧
        Balance.plan likeFiveFiles 2 = .ok other ∧ plan.SameShape other := by
  have whole : ∀ member ∈ fiveFiles, member.IsWhole := by
    simp [fiveFiles, file_isWhole]
  have perm : (fiveFiles.map Member.size?).Perm (likeFiveFiles.map Member.size?) := by decide
  exact ⟨whole, perm, by decide, plan_sameShape whole perm (by decide)⟩

end Balance
end HarvestPlan
