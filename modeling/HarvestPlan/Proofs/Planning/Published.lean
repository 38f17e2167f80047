import HarvestPlan.Planning
import HarvestPlan.Proofs.Balance.Partition
import HarvestPlan.Proofs.Planning.Delivered

namespace HarvestPlan

open Json (Value Fields)
open Harvest (IsPlainFile)

namespace Planned

theorem store_ok {planned : Except Harvest.Stopped Planned} {cap : Int} {target saved : Store}
    {made : Planned} (stored : store planned cap target = (saved, .ok made)) :
    planned = .ok made ∧ target.save made.plan.splits (.int cap) = (saved, .ok ()) := by
  unfold store at stored
  split at stored
  · cases stored
  · split at stored
    · rename_i saving
      cases stored
      exact ⟨rfl, saving⟩
    · cases stored

theorem publish_ok {surroundings : Surroundings} {config : Config} {cancel : Cancel}
    {target saved : Store} {planned : Planned}
    (published : publish surroundings config cancel target = (saved, .ok planned)) :
    (Harvest.run surroundings config.connection (some config.credentials)
        config.sourcePaths.toList config.isRecursive cancel).result = .ok planned.result ∧
      Balance.plan (membersOf planned.result) config.cap = .ok planned.plan ∧
      target.save planned.plan.splits (.int config.cap) = (saved, .ok ()) := by
  obtain ⟨made, saving⟩ := store_ok published
  obtain ⟨result, harvested, made⟩ := Outcome.bind_ok made
  obtain ⟨plan, balanced, made⟩ := Outcome.bind_ok made
  cases made
  exact ⟨harvested, Outcome.mapError_ok balanced, saving⟩

theorem exists_entries {members : List Member}
    (each : ∀ member ∈ members, ∃ entry, member = .entry entry ∧ IsPlainFile entry) :
    ∃ entries : List Entry, members = entries.map .entry ∧ ∀ entry ∈ entries, IsPlainFile entry := by
  induction members with
  | nil => exact ⟨[], rfl, by simp⟩
  | cons member rest ih =>
    obtain ⟨entry, rfl, plain⟩ := each member (by simp)
    obtain ⟨entries, rfl, others⟩ := ih fun other present =>
      each other (List.mem_cons_of_mem _ present)
    exact ⟨entry :: entries, rfl, by simpa using ⟨plain, others⟩⟩

/-- A store hands on all records of what was harvested, each once, in the splits of the plan. -/
structure Delivers (planned : Planned) (saved : Store) (parts : List (List Fields)) : Prop where
  count : saved.count = .ok parts.length
  size : planned.plan.size = parts.length
  each : ∀ i records, parts[i]? = some records → planned.DeliversSplit saved i records
  covered : ∃ harvested, planned.result.entries.mapM Entry.toRecord = .ok harvested ∧
    parts.flatten.Perm harvested

def recordOf : Member → Fields
  | .entry entry => entry.record
  | _ => []

theorem map_recordOf (entries : List Entry) :
    (entries.map Member.entry).map recordOf = entries.map Entry.record := by
  rw [List.map_map]
  rfl

/-- Whatever was stored before, a plan that goes through is handed on as it was harvested: all records
    can be read again from the splits that they were dealt out to, and each once. -/
theorem publish_delivers {surroundings : Surroundings} {config : Config} {cancel : Cancel}
    {target saved : Store} {planned : Planned} (textual : config.connection.IsTextual)
    (reaches : config.connection.ReachesTextual surroundings)
    (published : publish surroundings config cancel target = (saved, .ok planned)) :
    ∃ parts, planned.Delivers saved parts := by
  obtain ⟨harvested, balanced, saving⟩ := publish_ok published
  have plain := Harvest.run_plain textual reaches harvested
  have known : ∀ member ∈ membersOf planned.result,
      ∃ entry, member = .entry entry ∧ IsPlainFile entry := by
    intro member present
    obtain ⟨entry, entry_mem, rfl⟩ := List.mem_map.mp present
    exact ⟨entry, rfl, plain entry entry_mem⟩
  have whole : ∀ member ∈ membersOf planned.result, member.IsWhole := by
    intro member present
    obtain ⟨entry, rfl, plainFile⟩ := known member present
    exact plainFile.isWhole
  obtain ⟨count, state, same, -, dealt⟩ :=
    Balance.plan_dealt whole (Balance.plan_ok_positive balanced)
  rw [balanced] at same
  have splits : planned.plan.splits = state.splits := congrArg Plan.splits (Except.ok.inj same)
  have covered : (planned.plan.splits.flatMap (·.members.toList)).Perm
      (membersOf planned.result) := by
    rw [splits]
    exact dealt.splits_members.trans (Balance.sorted_perm _)
  obtain ⟨opened, texts, held, kept⟩ := Store.save_ok saving
  refine ⟨planned.plan.splits.map fun split => split.members.toList.map recordOf, ?_, ?_, ?_, ?_⟩
  · rw [List.length_map, ← held.count]
    exact congrArg (Except.map fun tables : Tables => tables.splits.length) (if_pos opened)
  · rw [List.length_map]
    rfl
  · intro i records there
    obtain ⟨split, present, rfl⟩ := Option.map_eq_some_iff.mp (List.getElem?_map ▸ there)
    have split_mem := List.mem_of_getElem? present
    obtain ⟨entries, members, plainEntries⟩ := exists_entries fun member inside =>
      known member (covered.mem_iff.mp (List.mem_flatMap.mpr ⟨split, split_mem, inside⟩))
    rw [splits] at split_mem
    have counted := (dealt.splits_cases split_mem).2.1
    rw [members, map_recordOf]
    exact deliversSplit opened held kept present counted members plainEntries
  · refine ⟨planned.result.entries.map Entry.record, records_plain plain, ?_⟩
    have records := covered.map recordOf
    rw [membersOf, map_recordOf] at records
    rw [← List.flatMap_def, ← List.map_flatMap]
    exact records

def objectsConnection : Connection :=
  .amazonS3 (.str "id") (.str "key") (.str "data") .null .null

def objectsConfig : Config := ⟨.listed ["a", "b"], objectsConnection, .bool true, 1⟩

def objectsAround : Surroundings where
  filesystem := ⟨[], "/", [], false⟩
  bucket :=
    { connectFault := none
      headFault := none
      heads := [("a", .ok ⟨some (.int 7), .null⟩), ("b", .ok ⟨some (.int 4), .null⟩)]
      probes := []
      listings := [] }

def objectEntry (name : String) (size : Int) : Entry where
  fileName := .str name
  fullPath := .str ("s3a://data/" ++ name)
  size := .int size
  timestamp := .int 0
  owner := .str ""
  isFolder := .bool false
  basePath := name
  permission := .int 0o666
  credentials := objectsConnection.credentials

def objectEntries : List Entry := [objectEntry "a" 7, objectEntry "b" 4]

theorem objects_harvested : ∃ result, (Harvest.run objectsAround objectsConfig.connection
    (some objectsConfig.credentials) objectsConfig.sourcePaths.toList objectsConfig.isRecursive
    .never).result = .ok result ∧ result.entries = objectEntries := by
  have entries : (Harvest.run objectsAround objectsConfig.connection
      (some objectsConfig.credentials) objectsConfig.sourcePaths.toList objectsConfig.isRecursive
      .never).result.toOption.map (·.entries) = some objectEntries := by decide +kernel
  generalize Harvest.run objectsAround objectsConfig.connection (some objectsConfig.credentials)
    objectsConfig.sourcePaths.toList objectsConfig.isRecursive .never = outcome at entries ⊢
  obtain ⟨handles, stopped | result⟩ := outcome
  · cases entries
  · exact ⟨result, rfl, Option.some.inj entries⟩

theorem objects_planned : ∃ splits, Balance.plan (objectEntries.map .entry) 1 =
      .ok ⟨splits, .int 1⟩ ∧
    ((Store.ofTables .empty).save splits (.int 1)).2 = .ok () := by
  have stored : (Balance.deal 1 2 (objectEntries.map .entry)).toOption.map (fun splits =>
      ((Store.ofTables .empty).save splits (.int 1)).2) = some (.ok ()) := by decide +kernel
  cases dealt : Balance.deal 1 2 (objectEntries.map .entry) with
  | error failure =>
    rw [dealt] at stored
    cases stored
  | ok splits =>
    rw [dealt] at stored
    have whole : ∀ member ∈ objectEntries.map Member.entry, member.IsWhole := by
      simp [objectEntries, objectEntry, Member.IsWhole, Member.size?]
    have count : Balance.numSplits (objectEntries.map Member.entry).length 1 = .ok 2 := rfl
    have planned := Balance.plan_of_sorted whole (by decide +kernel) count (by decide) dealt
    exact ⟨splits, planned, Option.some.inj stored⟩

theorem publish_delivers_two_objects : objectsConfig.connection.IsTextual ∧
    objectsConfig.connection.ReachesTextual objectsAround ∧
    ∃ saved planned parts,
      publish objectsAround objectsConfig .never (.ofTables .empty) = (saved, .ok planned) ∧
        planned.Delivers saved parts := by
  have textual : objectsConfig.connection.IsTextual := .amazonS3 "id" "key" "data" (.inl rfl)
  have reaches : objectsConfig.connection.ReachesTextual objectsAround := by
    constructor
    · intro key answer size present known
      simp only [objectsAround, List.mem_cons, Prod.mk.injEq, Except.ok.injEq, List.not_mem_nil,
        or_false] at present
      rcases present with ⟨-, rfl⟩ | ⟨-, rfl⟩
      · exact ⟨7, (Option.some.inj known).symm⟩
      · exact ⟨4, (Option.some.inj known).symm⟩
    · intro folder pages page object present
      cases present
  obtain ⟨result, harvested, entries⟩ := objects_harvested
  obtain ⟨splits, balanced, stored⟩ := objects_planned
  obtain ⟨saved, saving⟩ : ∃ saved, (Store.ofTables .empty).save splits (.int 1) =
      (saved, .ok ()) := ⟨_, Prod.ext rfl stored⟩
  have published : publish objectsAround objectsConfig .never (.ofTables .empty) =
      (saved, .ok ⟨result, ⟨splits, .int 1⟩⟩) := by
    have members : Balance.plan (membersOf result) objectsConfig.cap = .ok ⟨splits, .int 1⟩ := by
      rw [membersOf, entries]
      exact balanced
    rw [publish, make, harvested]
    simp only [ofHarvest, bind, Except.bind, members]
    change store (.ok ⟨result, ⟨splits, .int 1⟩⟩) 1 (.ofTables .empty) = _
    simp only [store, saving]
  obtain ⟨parts, delivers⟩ := publish_delivers textual reaches published
  exact ⟨textual, reaches, _, _, parts, published, delivers⟩

end Planned
end HarvestPlan
