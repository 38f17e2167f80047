import HarvestPlan.Command.Run
import HarvestPlan.Proofs.Balance.Weights
import HarvestPlan.Proofs.Harvest.Plain
import HarvestPlan.Proofs.Planning.Drained
import HarvestPlan.Proofs.Store.Loaded

namespace HarvestPlan

open Json (Value Fields)
open Harvest (IsPlainFile)

theorem Plan.split_ok_iff {plan : Plan} {i : Nat} {split : Split} :
    plan.split i = .ok split ↔ plan.splits[i]? = some split := by
  change Plan.split plan (Int.ofNat i) = _ ↔ _
  rw [Plan.split]
  cases plan.splits[i]? with
  | none => simp
  | some own => simp

theorem Harvest.IsPlainFile.isWhole {entry : Entry} (plain : IsPlainFile entry) :
    (Member.entry entry).IsWhole := by
  obtain ⟨-, n, size⟩ := plain
  exact ⟨n, by rw [Member.size?, size]⟩

namespace Planned

/-- The records of the split at a position: those of its entries in the plan, which the stored split
    gives without an error and which are printed as they are stored. -/
structure DeliversSplit (planned : Planned) (saved : Store) (i : Nat) (records : List Fields) :
    Prop where
  planned : ∃ split, ∃ entries : List Entry, planned.plan.split i = .ok split ∧
    split.members.toList = entries.map .entry ∧ entries.mapM Entry.toRecord = .ok records
  read : ∃ split reader ended, saved.split (.int i) = .ok split ∧
    SplitReader.ofSplit split = .ok reader ∧ reader.drain = (records, ended) ∧ ended.errors = []
  stored : saved.tables.entriesOf (.ofInt i) =
    (records.map fun record => Json.write (.obj record)).zipIdx.map fun (text, position) =>
      ⟨.ofInt i, .ofInt position, text⟩
  emitted : (saved.split (.int i) >>= Command.emitSplit) =
    .ok (.printed (records.map fun record => Json.write (.obj record)) [])

theorem records_plain {entries : List Entry} (plain : ∀ entry ∈ entries, IsPlainFile entry) :
    entries.mapM Entry.toRecord = .ok (entries.map Entry.record) :=
  Outcome.mapM_ok fun entry present => (plain entry present).1.toRecord

theorem readable_plain {entries : List Entry} (plain : ∀ entry ∈ entries, IsPlainFile entry) :
    (entries.map Member.entry).Forall₂ (fun member record => SplitReader.convert member = .ok record)
      (entries.map Entry.record) := by
  rw [List.forall₂_map_left_iff, List.forall₂_map_right_iff, List.forall₂_same]
  intro entry present
  rw [SplitReader.convert, (plain entry present).1.toRecord]
  rfl

theorem entryRows_eq (index position : Nat) (texts : List String) :
    Store.entryRows index position texts = (texts.zipIdx position).map fun (text, position) =>
      ⟨.ofInt index, .ofInt position, text⟩ := by
  induction texts generalizing position with
  | nil => rfl
  | cons text rest ih => rw [Store.entryRows, List.zipIdx_cons, List.map_cons, ih]

theorem deliversSplit {planned : Planned} {saved : Store} {texts : List (List String)}
    (opened : saved.isOpen = true)
    (held : Store.Holds 0 planned.plan.splits saved.tables.splits texts)
    (kept : saved.tables.entries = Store.planRows 0 texts) {i : Nat} {split : Split}
    (present : planned.plan.splits[i]? = some split) (counted : split.IsCounted)
    {entries : List Entry} (members : split.members.toList = entries.map .entry)
    (plain : ∀ entry ∈ entries, IsPlainFile entry) :
    planned.DeliversSplit saved i (entries.map Entry.record) := by
  have plainEntries : ∀ entry ∈ entries, entry.IsPlain := fun entry there => (plain entry there).1
  have whole : ∀ member ∈ split.members.toList, member.IsWhole := by
    intro member there
    rw [members] at there
    obtain ⟨entry, entry_mem, rfl⟩ := List.mem_map.mp there
    exact (plain entry entry_mem).isWhole
  have loaded := Store.split_saved opened held kept present counted whole members plainEntries
  have readable := readable_plain plain
  rw [← members] at readable
  obtain ⟨reader, made, drained⟩ :=
    @SplitReader.drain_readable (split.storedAt i) rfl counted.load _ readable
  obtain ⟨row, lines, -, -, listed, written⟩ := held.find present
  rw [Store.AreTextsOf, members] at written
  obtain ⟨rfl, -⟩ := Store.texts_plain plainEntries written
  constructor
  case planned => exact ⟨split, entries, Plan.split_ok_iff.mpr present, members, records_plain plain⟩
  case read => exact ⟨_, reader, _, loaded, made, drained, rfl⟩
  case stored =>
    rw [Store.entriesOf_planRows kept listed, entryRows_eq, List.map_map]
    rfl
  case emitted =>
    rw [loaded]
    show Command.emitSplit _ = _
    rw [Command.emitSplit, made]
    simp only [bind, Except.bind, drained]
    rfl

end Planned
end HarvestPlan
