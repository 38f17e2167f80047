import HarvestPlan.Proofs.Balance.Filling
import HarvestPlan.Proofs.Planning.Published

namespace HarvestPlan

open Json (Value)
open Harvest (IsPlainFile)

theorem Plan.inPlace {plan : Plan} {cap : Int} (arranged : Balance.IsArranged cap plan.splits)
    (atCap : ∀ (i : Nat) own, plan.split i = .ok own → (own.size : Int) = cap → own.index = .int i)
    (i : Nat) (own : Split) (present : plan.split i = .ok own) : own.index = .int i := by
  obtain ⟨full, open_, splits, numbered, ordered⟩ := arranged
  have first : full.map (·.index) = (List.range full.length).map fun i : Nat => .int i := by
    refine List.ext_getElem (by simp) fun place inside _ => ?_
    rw [List.length_map] at inside
    have here : plan.split place = .ok full[place] := by
      rw [Plan.split_ok_iff, splits, List.getElem?_append_left inside, List.getElem?_eq_getElem]
    have index := atCap place _ here (numbered.full _ (List.getElem_mem inside))
    simpa using index
  have numbers := numbered.inPlace ordered first
  rw [← splits] at numbers
  rw [Plan.split_ok_iff] at present
  have inside := (List.getElem?_eq_some_iff.mp present).1
  have listed : (plan.splits.map (·.index))[i]? = some own.index := by
    rw [List.getElem?_map, present]
    rfl
  rw [numbers, List.getElem?_map, List.getElem?_range inside] at listed
  exact (Option.some.inj listed).symm

theorem Store.split_planned {members : List Member} {cap : Int} {given : Value} {plan : Plan}
    {target saved : Store}
    (known : ∀ member ∈ members, ∃ entry, member = .entry entry ∧ IsPlainFile entry)
    (planned : Balance.plan members cap = .ok plan)
    (saving : target.save plan.splits given = (saved, .ok ())) {i : Nat} {own : Split}
    (present : plan.split i = .ok own) : saved.split (.int i) = .ok (own.storedAt i) := by
  have whole : ∀ member ∈ members, member.IsWhole := by
    intro member there
    obtain ⟨entry, rfl, plain⟩ := known member there
    exact plain.isWhole
  rw [Plan.split_ok_iff] at present
  obtain ⟨counted, held⟩ := Balance.plan_counted whole planned (List.mem_of_getElem? present)
  obtain ⟨entries, entriesOf, plain⟩ :=
    Planned.exists_entries fun member inside => known member (held member inside)
  obtain ⟨opened, texts, rows, kept⟩ := Store.save_ok saving
  exact Store.split_saved opened rows kept present counted
    (fun member inside => whole member (held member inside)) entriesOf
    fun entry inside => (plain entry inside).1

/-- How the splits are numbered, in a plan and in a store that it has been saved to. -/
structure Plan.IsRenumbered (plan : Plan) (members : List Member) (cap : Int) (saved : Store) :
    Prop where
  present : ∀ i : Nat, i < plan.size → ∃ own, plan.split i = .ok own
  arranged : Balance.IsArranged cap plan.splits
  filled : (∀ member ∈ members, member.IsWhole) →
    (plan.splits.filter fun split => (split.size : Int) = cap).Pairwise
      fun a b => Balance.RanksBefore (Balance.rankBefore a) (Balance.rankBefore b)
  stored : ∀ (i : Nat) loaded, saved.split (.int i) = .ok loaded → loaded.index = .int i
  given : (∀ member ∈ members, ∃ entry, member = .entry entry ∧ IsPlainFile entry) →
    ∀ (i : Nat) own, plan.split i = .ok own → saved.split (.int i) = .ok (own.storedAt i)
  agree : (∀ (i : Nat) own, plan.split i = .ok own → own.index = .int i) ↔
    ∀ (i : Nat) own, plan.split i = .ok own → (own.size : Int) = cap → own.index = .int i

/-- A plan that has been saved is addressed by position, and so are the splits that come out of the
    store. Those of the plan keep the numbers that they were opened under: first the ones at the cap, in
    the order in which they filled up, then the others by ascending number. -/
theorem Store.save_renumbers {members : List Member} {cap : Int} {given : Value} {plan : Plan}
    {target saved : Store} (planned : Balance.plan members cap = .ok plan)
    (saving : target.save plan.splits given = (saved, .ok ())) :
    plan.IsRenumbered members cap saved := by
  have arranged := Balance.plan_arranged planned
  constructor
  case present =>
    intro i inside
    exact ⟨plan.splits[i], Plan.split_ok_iff.mpr (List.getElem?_eq_getElem inside)⟩
  case arranged => exact arranged
  case filled => exact fun whole => Balance.plan_fills whole planned
  case stored => exact fun i loaded done => Store.split_index done
  case given => exact fun known i own present => Store.split_planned known planned saving present
  case agree =>
    exact ⟨fun everywhere i own present _ => everywhere i own present, Plan.inPlace arranged⟩

-- Four files in two splits, of which the second is the first to fill up.
open Balance (file)

def fourFiles : List Member := [file "a" 4, file "b" 3, file "c" 2, file "d" 1]

def fourFilesPlan : Plan where
  splits :=
    [⟨.int 1, #[file "b" 3, file "c" 2], .int 2, .int 5, true⟩,
      ⟨.int 0, #[file "a" 4, file "d" 1], .int 2, .int 5, true⟩]
  cap := .int 2

theorem fourFiles_plain :
    ∀ member ∈ fourFiles, ∃ entry, member = .entry entry ∧ IsPlainFile entry := by
  intro member present
  simp only [fourFiles, List.mem_cons, List.not_mem_nil, or_false] at present
  rcases present with rfl | rfl | rfl | rfl
  all_goals exact ⟨_, rfl, ⟨trivial, trivial, trivial, trivial, trivial, trivial, trivial,
    .localFiles _, rfl⟩, _, rfl⟩

theorem fourFiles_planned : Balance.plan fourFiles 2 = .ok fourFilesPlan := by
  have whole : ∀ member ∈ fourFiles, member.IsWhole := by simp [fourFiles, Balance.file_isWhole]
  have count : Balance.numSplits fourFiles.length 2 = .ok 2 := rfl
  exact Balance.plan_of_sorted whole (by decide +kernel) count (by decide) (by decide +kernel)

theorem fourFiles_saved : ∃ saved,
    (Store.ofTables .empty).save fourFilesPlan.splits (.int 2) = (saved, .ok ()) := by
  have ended : ((Store.ofTables .empty).save fourFilesPlan.splits (.int 2)).2 = .ok () := by
    decide +kernel
  exact ⟨_, Prod.ext rfl ended⟩

theorem Store.save_renumbers_four_files : ∃ saved,
    Balance.plan fourFiles 2 = .ok fourFilesPlan ∧
      (Store.ofTables .empty).save fourFilesPlan.splits (.int 2) = (saved, .ok ()) ∧
      fourFilesPlan.IsRenumbered fourFiles 2 saved := by
  obtain ⟨saved, saving⟩ := fourFiles_saved
  exact ⟨saved, fourFiles_planned, saving, Store.save_renumbers fourFiles_planned saving⟩

/-- The first split of the plan has the number 1, and comes out of the store under the number 0. -/
theorem Store.four_files_renumbered : ∃ saved own loaded,
    Balance.plan fourFiles 2 = .ok fourFilesPlan ∧
      (Store.ofTables .empty).save fourFilesPlan.splits (.int 2) = (saved, .ok ()) ∧
      fourFilesPlan.split 0 = .ok own ∧ saved.split (.int 0) = .ok loaded ∧
      own.index = .int 1 ∧ loaded.index = .int 0 := by
  obtain ⟨saved, saving⟩ := fourFiles_saved
  have first : fourFilesPlan.split (0 : Nat) =
      .ok ⟨.int 1, #[file "b" 3, file "c" 2], .int 2, .int 5, true⟩ := rfl
  have loaded := Store.split_planned fourFiles_plain fourFiles_planned saving first
  exact ⟨saved, _, _, fourFiles_planned, saving, first, loaded, rfl, rfl⟩

end HarvestPlan
