import HarvestPlan.Proofs.Balance.Weights
import HarvestPlan.Proofs.Split.Filled
import HarvestPlan.Proofs.Store.Found
import HarvestPlan.Proofs.Store.Rebuilt

namespace HarvestPlan

open Json (Value Fields)

def Split.storedAt (split : Split) (i : Nat) : Split :=
  { split with index := .int i, finalized := true }

namespace Store

theorem addRows_index {position : Nat} {shared : SharedCredentials} {split grown : Split}
    {rows : List EntryRow} (done : addRows position shared split rows = .ok grown) :
    grown.index = split.index := by
  induction rows generalizing position shared split with
  | nil =>
    cases done
    rfl
  | cons row rest ih =>
    unfold addRows at done
    dsimp only at done
    split at done
    · cases done
    · obtain ⟨record, -, done⟩ := Outcome.bind_ok done
      obtain ⟨⟨member, known⟩, -, done⟩ := Outcome.bind_ok done
      obtain ⟨next, added, done⟩ := Outcome.bind_ok done
      exact (ih done).trans (Split.index_added added)

theorem assemble_index {tables : Tables} {index load : Value} {key : Int} {loaded : Split}
    (done : assemble tables index key load = .ok loaded) : loaded.index = index := by
  obtain ⟨grown, filled, done⟩ := Outcome.bind_ok done
  dsimp only at done
  split at done
  · cases done
  · cases done
    exact addRows_index filled

theorem split_index {store : Store} {index : Value} {loaded : Split}
    (done : store.split index = .ok loaded) : loaded.index = index := by
  unfold Store.split at done
  split at done
  · dsimp only at done
    split at done
    · cases done
    · obtain ⟨tables, -, done⟩ := Outcome.bind_ok done
      split at done
      · cases done
      · obtain ⟨key, -, done⟩ := Outcome.bind_ok done
        split at done
        · exact assemble_index done
        · cases done
  · cases done

theorem recordText_ok {entry : Entry} (plain : entry.IsPlain) {text : String}
    (known : Member.recordText (.entry entry) = .ok text) :
    text = entry.line ∧ Json.isWritable (.obj entry.record) = true := by
  simp only [Member.recordText, plain.toRecord] at known
  split at known
  · cases known
    exact ⟨rfl, ‹_›⟩
  · cases known

theorem texts_plain {entries : List Entry} (plain : ∀ entry ∈ entries, entry.IsPlain)
    {texts : List String}
    (known : (entries.map Member.entry).Forall₂ (fun member text => member.recordText = .ok text)
      texts) :
    texts = entries.map Entry.line ∧
      ∀ entry ∈ entries, Json.isWritable (.obj entry.record) = true := by
  induction entries generalizing texts with
  | nil =>
    cases known
    simp
  | cons entry rest ih =>
    rw [List.map_cons] at known
    cases known with
    | cons here others =>
      obtain ⟨rfl, writable⟩ := recordText_ok (plain entry (by simp)) here
      obtain ⟨rfl, allWritable⟩ :=
        ih (fun other present => plain other (by simp [present])) others
      exact ⟨rfl, by simpa using ⟨writable, allWritable⟩⟩

theorem recordOf_line {entry : Entry} (plain : entry.IsPlain)
    (writable : Json.isWritable (.obj entry.record) = true) (split : Value) (position : Nat) :
    recordOf split position entry.line = .ok entry.record := by
  unfold recordOf
  rw [plain.read_line writable]

theorem addRows_lines {entries : List Entry} (plain : ∀ entry ∈ entries, entry.IsPlain)
    (writable : ∀ entry ∈ entries, Json.isWritable (.obj entry.record) = true)
    {shared : SharedCredentials} (faithful : shared.IsFaithful) (index position : Nat)
    (split : Split) :
    addRows position shared split (entryRows index position (entries.map Entry.line)) =
      (entries.map Member.entry).foldlM Split.added split := by
  induction entries generalizing shared position split with
  | nil => rfl
  | cons entry rest ih =>
    have own : entry.IsPlain := plain entry (by simp)
    have record := recordOf_line own (writable entry (by simp)) split.index position
    obtain ⟨grown, stillFaithful, rebuilt⟩ := rebuild_record faithful own
    have here : (Cell.ofInt position).same (.ofInt position) = true := by
      simp [Cell.same_ofInt]
    rw [List.map_cons, List.map_cons, List.foldlM_cons, entryRows, addRows]
    simp only [here, record, rebuilt, bind, Except.bind, Bool.not_true, Bool.false_eq_true, if_false]
    cases added : split.added (.entry entry) with
    | error failure => rfl
    | ok taken =>
      exact ih (fun other present => plain other (by simp [present]))
        (fun other present => writable other (by simp [present])) stillFaithful (position + 1) taken

theorem splitRow_load {index : Nat} {split : Split} {row : SplitRow}
    (made : splitRow index split = .ok row) {load : Int} (counted : split.load = .int load) :
    row.load = .int load := by
  obtain ⟨-, _, _, _, -, loaded, -, rfl⟩ := splitRow_ok made
  rw [counted] at loaded
  obtain ⟨kept, fits, rfl⟩ := Outcome.map_ok loaded
  rw [Column.integer_ok fits]
  rfl

theorem split_of_holds {store : Store} (opened : store.isOpen = true) {splits : List Split}
    {texts : List (List String)} (held : Holds 0 splits store.tables.splits texts)
    (kept : store.tables.entries = planRows 0 texts) {i : Nat} {split grown : Split}
    (present : splits[i]? = some split) {entries : List Entry}
    (members : split.members.toList = entries.map .entry)
    (plain : ∀ entry ∈ entries, entry.IsPlain) {load : Int} (counted : split.load = .int load)
    (added : (entries.map Member.entry).foldlM Split.added (.empty (.int i)) = .ok grown)
    (recounted : grown.load = .int load) : store.split (.int i) = .ok grown.finalize := by
  obtain ⟨row, lines, found, made, listed, written⟩ := held.find present
  rw [Nat.zero_add] at found made
  have bound : i < splits.length := (List.getElem?_eq_some_iff.mp present).1
  rw [AreTextsOf, members] at written
  obtain ⟨rfl, writable⟩ := texts_plain plain written
  have inside : (Quantity.int i).less (.int store.tables.splits.length) = true := by
    rw [Quantity.less_int, held.count]
    simpa using bound
  have outside : (Quantity.int 0).atMost (.int i) = true := by
    simp [Quantity.atMost_int]
  have key : Column.key (.int i) = .ok (some (i : Int)) := by
    rw [Column.key, Column.bound, (splitRow_ok made).1]
    rfl
  have unknown : SharedCredentials.IsFaithful [] := by simp [SharedCredentials.IsFaithful]
  have rows := addRows_lines plain writable unknown i 0 (.empty (.int i))
  have assembled : assemble store.tables (.int i) i row.load = .ok grown.finalize := by
    rw [assemble, entriesOf_planRows kept listed, rows, added]
    simp [bind, Except.bind, recounted, splitRow_load made counted, pure, Except.pure]
  have reached : store.reach = .ok store.tables := if_pos opened
  have row_eq : store.tables.split? i = some row := found
  simp only [Store.split, Value.quantity?, outside, reached, inside, key, row_eq, bind, Except.bind,
    Option.bind, Bool.not_true, Bool.false_eq_true, if_false, assembled]

theorem split_saved {store : Store} (opened : store.isOpen = true) {splits : List Split}
    {texts : List (List String)} (held : Holds 0 splits store.tables.splits texts)
    (kept : store.tables.entries = planRows 0 texts) {i : Nat} {split : Split}
    (present : splits[i]? = some split) (counted : split.IsCounted)
    (whole : ∀ member ∈ split.members.toList, member.IsWhole) {entries : List Entry}
    (members : split.members.toList = entries.map .entry)
    (plain : ∀ entry ∈ entries, entry.IsPlain) : store.split (.int i) = .ok (split.storedAt i) := by
  have again := counted.added_again whole (.int i)
  rw [members] at again
  exact split_of_holds opened held kept present members plain counted.load again counted.load

end Store
end HarvestPlan
