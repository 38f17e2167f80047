import HarvestPlan.Store.Load
import HarvestPlan.Proofs.Json.Flat
import HarvestPlan.Proofs.Split.Filled
import HarvestPlan.Proofs.Store.Found

namespace HarvestPlan.Store

open Json (Value Fields)

/-- Rows at one position after another, with the objects that their texts are. -/
inductive AreRecords : (position : Nat) → List EntryRow → List Fields → Prop
  | nil (position : Nat) : AreRecords position [] []
  | cons {position : Nat} {row : EntryRow} {rows : List EntryRow} {record : Fields}
      {records : List Fields} (placed : row.position.same (.ofInt position) = true)
      (read : Json.read row.text = .ok (.obj record))
      (others : AreRecords (position + 1) rows records) :
      AreRecords position (row :: rows) (record :: records)

structure ListsSplit (store : Store) (index : Nat) (load : Value) : Prop where
  opened : store.isOpen = true
  fits : (index : Int) ≤ Column.greatest
  counted : index < store.tables.splits.length
  listed : ∃ row, store.tables.split? index = some row ∧ row.load = load

structure StoresRecords (store : Store) (index : Nat) (records : List Fields) : Prop where
  opened : store.isOpen = true
  fits : (index : Int) ≤ Column.greatest
  counted : index < store.tables.splits.length
  listed : ∃ row, store.tables.split? index = some row ∧ row.load = .int records.length
  rows : AreRecords 0 (store.tables.entriesOf (.ofInt index)) records

def fill : SharedCredentials → Split → List Fields → Except Failure Split
  | _, split, [] => .ok split
  | shared, split, record :: records => do
    let (member, shared) ← rebuild shared record
    let grown ← split.added member
    fill shared grown records

theorem addRows_eq_fill {position : Nat} {rows : List EntryRow} {records : List Fields}
    (are : AreRecords position rows records) (shared : SharedCredentials) (split : Split) :
    addRows position shared split rows = fill shared split records := by
  induction are generalizing shared split with
  | nil position => rfl
  | @cons position row rows record records placed read others ih =>
    have known : recordOf split.index position row.text = .ok record := by
      rw [recordOf, read]
    simp only [addRows, fill, placed, known, ih, bind, Except.bind, Bool.not_true,
      Bool.false_eq_true, if_false]

def rebuildAll : SharedCredentials → List Fields → Except Failure (List Member)
  | _, [] => .ok []
  | shared, record :: records => do
    let (member, shared) ← rebuild shared record
    let members ← rebuildAll shared records
    pure (member :: members)

theorem rebuildAll_cons {shared : SharedCredentials} {record : Fields} {records : List Fields}
    {members : List Member} (done : rebuildAll shared (record :: records) = .ok members) :
    ∃ member grown others, rebuild shared record = .ok (member, grown) ∧
      rebuildAll grown records = .ok others ∧ members = member :: others := by
  obtain ⟨⟨member, grown⟩, here, done⟩ := Outcome.bind_ok done
  obtain ⟨others, later, done⟩ := Outcome.bind_ok done
  cases done
  exact ⟨member, grown, others, here, later, rfl⟩

theorem rebuildAll_of_cons {shared grown : SharedCredentials} {record : Fields}
    {records : List Fields} {member : Member} {others : List Member}
    (here : rebuild shared record = .ok (member, grown))
    (later : rebuildAll grown records = .ok others) :
    rebuildAll shared (record :: records) = .ok (member :: others) := by
  simp only [rebuildAll, here, later, bind, Except.bind]
  rfl

theorem length_rebuildAll {shared : SharedCredentials} {records : List Fields}
    {members : List Member} (done : rebuildAll shared records = .ok members) :
    members.length = records.length := by
  induction records generalizing shared members with
  | nil =>
    cases done
    rfl
  | cons record rest ih =>
    obtain ⟨member, grown, others, -, later, rfl⟩ := rebuildAll_cons done
    rw [List.length_cons, ih later, List.length_cons]

theorem fill_ok_iff {shared : SharedCredentials} {split grown : Split} {records : List Fields} :
    fill shared split records = .ok grown ↔ ∃ members, rebuildAll shared records = .ok members ∧
      members.foldlM Split.added split = .ok grown := by
  induction records generalizing shared split with
  | nil => simp [fill, rebuildAll, pure, Except.pure]
  | cons record rest ih =>
    constructor
    · intro done
      obtain ⟨⟨member, after⟩, here, done⟩ := Outcome.bind_ok done
      obtain ⟨next, added, done⟩ := Outcome.bind_ok done
      obtain ⟨members, later, filled⟩ := ih.mp done
      refine ⟨member :: members, rebuildAll_of_cons here later, ?_⟩
      rw [List.foldlM_cons, added]
      exact filled
    · rintro ⟨members, rebuilt, filled⟩
      obtain ⟨member, after, others, here, later, rfl⟩ := rebuildAll_cons rebuilt
      rw [List.foldlM_cons] at filled
      obtain ⟨next, added, filled⟩ := Outcome.bind_ok filled
      have done := ih.mpr ⟨others, later, filled⟩
      simp only [fill, here, added, bind, Except.bind]
      exact done

theorem StoresRecords.lists {store : Store} {index : Nat} {records : List Fields}
    (held : store.StoresRecords index records) :
    store.ListsSplit index (.int records.length) :=
  ⟨held.opened, held.fits, held.counted, held.listed⟩

theorem ListsSplit.split_eq {store : Store} {index : Nat} {load : Value}
    (lists : store.ListsSplit index load) :
    store.split (.int index) = assemble store.tables (.int index) index load := by
  obtain ⟨row, found, load⟩ := lists.listed
  have reached : store.reach = .ok store.tables := if_pos lists.opened
  have outside : (Quantity.int 0).atMost (.int index) = true := by
    simp [Quantity.atMost_int]
  have inside : (Quantity.int index).less (.int store.tables.splits.length) = true := by
    rw [Quantity.less_int]
    simpa using lists.counted
  have least : Column.least ≤ (index : Int) := by
    have negative : Column.least ≤ 0 := by decide
    omega
  have key : Column.key (.int index) = .ok (some (index : Int)) := by
    rw [Column.key, Column.bound, Column.integer, if_pos ⟨least, lists.fits⟩]
    rfl
  simp only [Store.split, Value.quantity?, outside, reached, inside, key, found, load, bind,
    Except.bind, Option.bind, Bool.not_true, Bool.false_eq_true, if_false]

theorem StoresRecords.split_eq {store : Store} {index : Nat} {records : List Fields}
    (held : store.StoresRecords index records) :
    store.split (.int index) = Split.finalize <$> fill [] (.empty (.int index)) records := by
  rw [held.lists.split_eq, assemble, addRows_eq_fill held.rows]
  cases done : fill [] (.empty (.int index)) records with
  | error failure => rfl
  | ok grown =>
    obtain ⟨members, rebuilt, filled⟩ := fill_ok_iff.mp done
    have start : (Split.empty (.int index)).load = .int 0 := rfl
    have count := (Split.foldlM_ok start filled).1
    rw [length_rebuildAll rebuilt, Int.zero_add] at count
    simp only [bind, Except.bind, count, ne_eq, not_true_eq_false, if_false]
    rfl

theorem StoresRecords.split_of_fill {store : Store} {index : Nat} {records : List Fields}
    {grown : Split} (held : store.StoresRecords index records)
    (done : fill [] (.empty (.int index)) records = .ok grown) :
    store.split (.int index) = .ok grown.finalize := by
  rw [held.split_eq, done]
  rfl

/-- Loading such a split fails only where a record cannot be rebuilt or its size cannot be added. -/
theorem StoresRecords.split_ok_iff {store : Store} {index : Nat} {records : List Fields}
    (held : store.StoresRecords index records) (loaded : Split) :
    store.split (.int index) = .ok loaded ↔ ∃ members grown, rebuildAll [] records = .ok members ∧
      members.foldlM Split.added (.empty (.int index)) = .ok grown ∧ loaded = grown.finalize := by
  constructor
  · intro done
    rw [held.split_eq] at done
    obtain ⟨grown, finished, rfl⟩ := Outcome.map_ok done
    obtain ⟨members, rebuilt, filled⟩ := fill_ok_iff.mp finished
    exact ⟨members, grown, rebuilt, filled, rfl⟩
  · rintro ⟨members, grown, rebuilt, filled, rfl⟩
    exact held.split_of_fill (fill_ok_iff.mpr ⟨members, rebuilt, filled⟩)

def splitRows : (index : Nat) → List (List Fields) → List SplitRow
  | _, [] => []
  | index, records :: others =>
    ⟨index, .int records.length, .int 0, ""⟩ :: splitRows (index + 1) others

theorem length_splitRows (start : Nat) (splits : List (List Fields)) :
    (splitRows start splits).length = splits.length := by
  induction splits generalizing start with
  | nil => rfl
  | cons records rest ih => rw [splitRows, List.length_cons, ih, List.length_cons]

theorem find_splitRows {start index : Nat} {splits : List (List Fields)} {records : List Fields}
    (present : splits[index]? = some records) :
    ∃ row, (splitRows start splits).find? (fun row => row.index == ((start + index : Nat) : Int)) =
      some row ∧ row.load = .int records.length := by
  induction splits generalizing start index with
  | nil => simp at present
  | cons head rest ih =>
    cases index with
    | zero =>
      cases present
      exact ⟨_, List.find?_cons_of_pos (by simp), rfl⟩
    | succ index =>
      have later : rest[index]? = some records := present
      have shift : start + 1 + index = start + (index + 1) := by omega
      obtain ⟨row, found, load⟩ := @ih (start + 1) index later
      rw [shift] at found
      refine ⟨row, ?_, load⟩
      rw [splitRows, List.find?_cons_of_neg]
      · exact found
      · have other : (start : Int) ≠ ((start + (index + 1) : Nat) : Int) := by omega
        simpa using other

def ofRecords (splits : List (List Fields)) : Store :=
  .ofTables ⟨[], splitRows 0 splits,
    planRows 0 (splits.map (·.map fun record => Json.write (.obj record)))⟩

theorem areRecords_written {records : List Fields}
    (read : ∀ record ∈ records, Json.read (Json.write (.obj record)) = .ok (.obj record))
    (index position : Nat) :
    AreRecords position
      (entryRows index position (records.map fun record => Json.write (.obj record))) records := by
  induction records generalizing position with
  | nil => exact .nil position
  | cons record rest ih =>
    have others := ih (fun other present => read other (by simp [present])) (position + 1)
    refine .cons ?_ (read record (by simp)) others
    simp [Cell.same_ofInt]

theorem storesRecords_ofRecords {splits : List (List Fields)} {index : Nat} {records : List Fields}
    (present : splits[index]? = some records) (fits : (index : Int) ≤ Column.greatest)
    (readable : ∀ record ∈ records, Json.IsFlat record ∨
      Json.readText (Json.written (.obj record)) = .ok (.obj record)) :
    (ofRecords splits).StoresRecords index records := by
  have read : ∀ record ∈ records, Json.read (Json.write (.obj record)) = .ok (.obj record) := by
    intro record present
    rcases readable record present with flat | known
    · exact flat.read_write
    · exact Json.read_write_of_readText known
  constructor
  case opened => rfl
  case fits => exact fits
  case counted =>
    have less := (List.getElem?_eq_some_iff.mp present).1
    have rows := length_splitRows 0 splits
    change index < (splitRows 0 splits).length
    omega
  case listed =>
    have found := @find_splitRows 0 index splits records present
    rw [Nat.zero_add] at found
    exact found
  case rows =>
    have lines : (splits.map (·.map fun record => Json.write (.obj record)))[index]? =
        some (records.map fun record => Json.write (.obj record)) := by
      rw [List.getElem?_map, present]
      rfl
    rw [entriesOf_planRows rfl lines]
    exact areRecords_written read index 0

end HarvestPlan.Store
