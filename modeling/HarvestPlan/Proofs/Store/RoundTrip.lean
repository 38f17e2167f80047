import HarvestPlan.Proofs.Split.Filled
import HarvestPlan.Proofs.Store.Loaded

namespace HarvestPlan

open Json (Value)

/-- The bytes of an entry as an integer; a truth value counts as 0 or 1. -/
def Entry.bytes (entry : Entry) : Int := entry.size.toInt?.getD 0

theorem Entry.IsPlain.toInt {entry : Entry} (plain : entry.IsPlain) :
    entry.size.toInt? = some entry.bytes := by
  have scalar := plain.size
  unfold Entry.bytes
  cases size : entry.size with
  | int n => rfl
  | flag b => rfl
  | float x =>
    rw [size] at scalar
    cases scalar

namespace Split

/-- A finalized split of plain entries whose load is their number. -/
structure IsPlain (split : Split) (entries : List Entry) : Prop where
  members : split.members.toList = entries.map .entry
  plain : ∀ entry ∈ entries, entry.IsPlain
  load : split.load = .int split.size
  finalized : split.finalized = true

/-- A split as it is loaded: its total is that of its entries, whatever total was saved. -/
structure IsCopy (loaded split : Split) (i : Nat) : Prop where
  index : loaded.index = .int i
  members : loaded.members = split.members
  load : loaded.load = split.load
  total : ∀ entries : List Entry, split.members.toList = entries.map .entry →
    loaded.totalBytes = .int (entries.map Entry.bytes).sum
  finalized : loaded.finalized = true

theorem sum_plain {entries : List Entry} (plain : ∀ entry ∈ entries, entry.IsPlain) (total : Int) :
    sum? (.int total) (entries.map .entry) =
      some (.int (total + (entries.map Entry.bytes).sum)) := by
  apply sum_whole
  rw [List.map_map, List.map_map]
  exact List.map_congr_left fun entry present => (plain entry present).toInt

theorem foldlM_plain {entries : List Entry} (plain : ∀ entry ∈ entries, entry.IsPlain)
    (index : Value) :
    (entries.map Member.entry).foldlM added (.empty index) =
      .ok ⟨index, (entries.map Member.entry).toArray, .int entries.length,
        .int (entries.map Entry.bytes).sum, false⟩ := by
  have summed := sum_plain plain 0
  have grown := @foldlM_filled (.empty index) _ _ _ rfl rfl summed
  rw [grown]
  simp [filled, empty]

/-- Plain splits are what comes of adding plain entries to an empty split and finalizing it. -/
theorem isPlain_of_added {entries : List Entry} (plain : ∀ entry ∈ entries, entry.IsPlain)
    {index : Value} {split : Split}
    (done : (entries.map Member.entry).foldlM added (.empty index) = .ok split) :
    split.finalize.IsPlain entries := by
  rw [foldlM_plain plain index] at done
  cases done
  exact ⟨by simp [finalize], plain, by simp [finalize, size], rfl⟩

theorem IsPlain.added_again {split : Split} {entries : List Entry} (plain : split.IsPlain entries)
    (index : Value) :
    (entries.map Member.entry).foldlM added (.empty index) =
      .ok { split with
        index := index, totalBytes := .int (entries.map Entry.bytes).sum, finalized := false } := by
  have members : split.members = (entries.map Member.entry).toArray := by
    rw [← plain.members, Array.toArray_toList]
  have size : split.size = entries.length := by
    rw [Split.size, members]
    simp
  rw [foldlM_plain plain.plain, plain.load, size, members]

end Split

namespace Store

structure GivesBack (store : Store) (splits : List Split) : Prop where
  count : store.count = .ok splits.length
  inside : ∀ (i : Nat) split, splits[i]? = some split →
    ∃ loaded, store.split (.int i) = .ok loaded ∧ loaded.IsCopy split i
  outside : ∀ i : Int, i < 0 ∨ (splits.length : Int) ≤ i →
    store.split (.int i) = .error (.storedIndex (.int i))
  fingerprints : ∀ (i : Nat) split, splits[i]? = some split →
    ∃ fingerprint, store.fingerprint? (.int i) = .ok (some fingerprint) ∧
      split.fingerprint = .ok fingerprint ∧
      (store.split (.int i) >>= Split.fingerprint) = .ok fingerprint

theorem split_plain {store : Store} (opened : store.isOpen = true) {splits : List Split}
    {texts : List (List String)} (held : Holds 0 splits store.tables.splits texts)
    (kept : store.tables.entries = planRows 0 texts) {i : Nat} {split : Split}
    (present : splits[i]? = some split) {entries : List Entry} (plain : split.IsPlain entries) :
    store.split (.int i) =
      .ok { split.storedAt i with totalBytes := .int (entries.map Entry.bytes).sum } :=
  split_of_holds opened held kept present plain.members plain.plain plain.load
    (plain.added_again (.int i)) plain.load

theorem split_outside {store : Store} (opened : store.isOpen = true) {i : Int}
    (outside : i < 0 ∨ (store.tables.splits.length : Int) ≤ i) :
    store.split (.int i) = .error (.storedIndex (.int i)) := by
  have reached : store.reach = .ok store.tables := if_pos opened
  by_cases negative : i < 0
  · have below : (Quantity.int 0).atMost (.int i) = false := by
      rw [Quantity.atMost_int, decide_eq_false_iff_not]
      omega
    simp only [Store.split, Value.quantity?, below, Bool.not_false, if_true]
    rfl
  · have inside : (Quantity.int 0).atMost (.int i) = true := by
      rw [Quantity.atMost_int, decide_eq_true_eq]
      omega
    have beyond : (Quantity.int i).less (.int store.tables.splits.length) = false := by
      rw [Quantity.less_int, decide_eq_false_iff_not]
      omega
    simp only [Store.split, Value.quantity?, inside, reached, beyond, bind, Except.bind,
      Bool.not_true, Bool.not_false, Bool.false_eq_true, if_false, if_true]
    rfl

theorem fingerprint_of_holds {store : Store} (opened : store.isOpen = true) {splits : List Split}
    {texts : List (List String)} (held : Holds 0 splits store.tables.splits texts) {i : Nat}
    {split : Split} (present : splits[i]? = some split) :
    ∃ fingerprint, store.fingerprint? (.int i) = .ok (some fingerprint) ∧
      split.fingerprint = .ok fingerprint := by
  obtain ⟨row, lines, found, made, -, -⟩ := held.find present
  rw [Nat.zero_add] at found made
  obtain ⟨fits, fingerprint, load, total, hashed, -, -, rfl⟩ := splitRow_ok made
  have reached : store.reach = .ok store.tables := if_pos opened
  have key : Column.key (.int i) = .ok (some (i : Int)) := by
    rw [Column.key, Column.bound, fits]
    rfl
  refine ⟨fingerprint, ?_, hashed⟩
  have row_eq : store.tables.split? i = some _ := found
  simp [Store.fingerprint?, reached, key, row_eq, bind, Except.bind, pure, Except.pure]

/-- Plain splits are given back by the store that they have been saved to, whatever credentials their
    entries have. -/
theorem save_givesBack {store saved : Store} {splits : List Split} {cap : Value}
    (plain : ∀ split ∈ splits, ∃ entries, split.IsPlain entries)
    (done : store.save splits cap = (saved, .ok ())) : saved.GivesBack splits := by
  obtain ⟨opened, texts, held, kept⟩ := save_ok done
  have reached : saved.reach = .ok saved.tables := if_pos opened
  have loads : ∀ (i : Nat) split, splits[i]? = some split →
      ∃ entries : List Entry, split.members.toList = entries.map .entry ∧ saved.split (.int i) =
        .ok { split.storedAt i with totalBytes := .int (entries.map Entry.bytes).sum } := by
    intro i split present
    obtain ⟨entries, own⟩ := plain split (List.mem_of_getElem? present)
    exact ⟨entries, own.members, split_plain opened held kept present own⟩
  constructor
  case count =>
    rw [← held.count]
    simp [Store.count, reached, bind, Except.bind, pure, Except.pure]
  case inside =>
    intro i split present
    obtain ⟨entries, members, loaded⟩ := loads i split present
    refine ⟨_, loaded, rfl, rfl, rfl, fun others same => ?_, rfl⟩
    rw [List.map_injective_iff.mpr (fun _ _ => Member.entry.inj) (same.symm.trans members)]
  case outside =>
    intro i outside
    rw [← held.count] at outside
    exact split_outside opened outside
  case fingerprints =>
    intro i split present
    obtain ⟨fingerprint, stored, hashed⟩ := fingerprint_of_holds opened held present
    refine ⟨fingerprint, stored, hashed, ?_⟩
    obtain ⟨entries, -, loaded⟩ := loads i split present
    rw [loaded]
    exact hashed

def mixedEntry (name : String) (size : Quantity) (credentials : Credentials) : Entry where
  fileName := .str name
  fullPath := .str ("/données/" ++ name)
  size := size
  timestamp := .int 1700000000000
  owner := .str "\"😀\""
  isFolder := .bool false
  basePath := name
  permission := .int 0o644
  credentials := credentials

def mixedEntries : List Entry :=
  [mixedEntry "a" (.int 7) (.localFiles (.str "file:///")),
    mixedEntry "b" (.flag true) (.amazonS3 (.str "id") (.str "key") .null (.str "data")),
    mixedEntry "c" (.int 0) (.amazonS3 (.str "id") (.str "key") (.str "null") (.str "data")),
    mixedEntry "d" (.int 4) (.localFiles (.str "file:///mnt"))]

theorem mixedEntries_plain : ∀ entry ∈ mixedEntries, entry.IsPlain := by
  intro entry present
  simp only [mixedEntries, List.mem_cons, List.not_mem_nil, or_false] at present
  rcases present with rfl | rfl | rfl | rfl
  · exact ⟨trivial, trivial, trivial, trivial, trivial, trivial, trivial, .localFiles _, rfl⟩
  · exact ⟨trivial, trivial, trivial, trivial, trivial, trivial, trivial,
      .amazonS3 _ _ _ (.inl rfl), rfl⟩
  · exact ⟨trivial, trivial, trivial, trivial, trivial, trivial, trivial,
      .amazonS3 _ _ _ (.inr ⟨_, rfl⟩), rfl⟩
  · exact ⟨trivial, trivial, trivial, trivial, trivial, trivial, trivial, .localFiles _, rfl⟩

def mixedSplit (entries : List Entry) : Split :=
  ⟨.int 3, (entries.map .entry).toArray, .int entries.length, .int (entries.map Entry.bytes).sum,
    true⟩

theorem mixedSplit_plain {entries : List Entry} (plain : ∀ entry ∈ entries, entry.IsPlain) :
    (mixedSplit entries).IsPlain entries :=
  Split.isPlain_of_added plain (Split.foldlM_plain plain (.int 3))

def mixedSplits : List Split := [mixedSplit mixedEntries, mixedSplit (mixedEntries.take 1)]

theorem save_givesBack_mixed_credentials :
    (∀ split ∈ mixedSplits, ∃ entries, split.IsPlain entries) ∧
      ∃ saved, (Store.ofTables .empty).save mixedSplits (.int 4) = (saved, .ok ()) ∧
        saved.GivesBack mixedSplits := by
  have plain : ∀ split ∈ mixedSplits, ∃ entries, split.IsPlain entries := by
    intro split present
    simp only [mixedSplits, List.mem_cons, List.not_mem_nil, or_false] at present
    rcases present with rfl | rfl
    · exact ⟨mixedEntries, mixedSplit_plain mixedEntries_plain⟩
    · have first : ∀ entry ∈ mixedEntries.take 1, entry.IsPlain := fun entry taken =>
        mixedEntries_plain entry (List.mem_of_mem_take taken)
      exact ⟨mixedEntries.take 1, mixedSplit_plain first⟩
  have ended : ((Store.ofTables .empty).save mixedSplits (.int 4)).2 = .ok () := by decide +kernel
  obtain ⟨saved, done⟩ : ∃ saved, (Store.ofTables .empty).save mixedSplits (.int 4) =
      (saved, .ok ()) := ⟨_, Prod.ext rfl ended⟩
  exact ⟨plain, saved, done, save_givesBack plain done⟩

/-- An entry of seven bytes in a split that has counted none. -/
def staleSplit : Split :=
  ⟨.int 0, #[.entry (mixedEntry "a" (.int 7) (.localFiles (.str "file:///")))], .int 1, .int 0, true⟩

theorem save_recounts_stale_total :
    (∃ entries, staleSplit.IsPlain entries) ∧
      ∃ saved loaded, (Store.ofTables .empty).save [staleSplit] (.int 1) = (saved, .ok ()) ∧
        saved.split (.int 0) = .ok loaded ∧ staleSplit.totalBytes = .int 0 ∧
        loaded.totalBytes = .int 7 := by
  have plain : staleSplit.IsPlain [mixedEntry "a" (.int 7) (.localFiles (.str "file:///"))] := by
    refine ⟨rfl, fun entry present => ?_, rfl, rfl⟩
    rw [List.mem_singleton.mp present]
    exact mixedEntries_plain _ List.mem_cons_self
  have ended : ((Store.ofTables .empty).save [staleSplit] (.int 1)).2 = .ok () := by decide +kernel
  have totals : (((Store.ofTables .empty).save [staleSplit] (.int 1)).1.split (.int 0)).toOption.map
      (·.totalBytes) = some (.int 7) := by decide +kernel
  cases loaded : ((Store.ofTables .empty).save [staleSplit] (.int 1)).1.split (.int 0) with
  | error failure =>
    rw [loaded] at totals
    cases totals
  | ok split =>
    rw [loaded] at totals
    exact ⟨⟨_, plain⟩, _, split, Prod.ext rfl ended, loaded, rfl, Option.some.inj totals⟩

end Store
end HarvestPlan
