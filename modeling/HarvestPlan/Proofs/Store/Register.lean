import HarvestPlan.Proofs.Store.Saved
import HarvestPlan.Proofs.Store.Steady

/-!
The store as a register: whatever is saved one after another, its tables describe the last plan whose
saving went through, and a saving that fails is as if it had not been tried.
-/
namespace HarvestPlan

open Json (Value)

structure Saving where
  splits : List Split
  cap : Value
deriving Repr, DecidableEq

namespace Saving

/-- Every split has its row, every member its text, and the cap a text of its own. -/
structure IsStorable (saving : Saving) : Prop where
  splits : ∀ split ∈ saving.splits.zipIdx, ∃ row, Store.splitRow split.2 split.1 = .ok row
  members : ∀ split ∈ saving.splits.zipIdx, ∀ member ∈ split.1.members.toList.zipIdx,
    ∃ row, Store.entryRow split.2 member = .ok row
  cap : ∃ text, Store.capText saving.cap = .ok text

/-- The tables hold the plan and no more: a row for each split, under the numbers from zero on, and one
    for the text of each member, numbered in the same way within its split. -/
structure IsIn (saving : Saving) (tables : Tables) : Prop where
  numbered : tables.splits.map (·.index) = (List.range saving.splits.length).map Int.ofNat
  plan : ∃ texts, Store.Holds 0 saving.splits tables.splits texts ∧
    tables.entries = Store.planRows 0 texts
  cap : tables.metadata? Store.capKey = some (some saving.cap.text)
  mark : tables.metadata? Store.savedKey = some (some Store.savedMark)

theorem isStorable_iff (saving : Saving) :
    Store.saveAnswer saving.splits saving.cap = .ok () ↔ saving.IsStorable := by
  constructor
  · intro answered
    obtain ⟨_, rows, answered⟩ := Outcome.bind_ok answered
    obtain ⟨text, known, -⟩ := Outcome.bind_ok answered
    have each := Outcome.forM_ok_iff.mp rows
    constructor
    · intro split present
      obtain ⟨row, made, -⟩ := Outcome.bind_ok (each split present)
      exact ⟨row, made⟩
    · intro split present member inside
      obtain ⟨-, -, others⟩ := Outcome.bind_ok (each split present)
      obtain ⟨row, made, -⟩ := Outcome.bind_ok (Outcome.forM_ok_iff.mp others member inside)
      exact ⟨row, made⟩
    · exact ⟨text, known⟩
  · intro storable
    obtain ⟨text, known⟩ := storable.cap
    have rows : saving.splits.zipIdx.forM Store.wholeAnswer = .ok () := by
      apply Outcome.forM_ok_iff.mpr
      intro split present
      obtain ⟨row, made⟩ := storable.splits split present
      rw [Store.wholeAnswer, made]
      apply Outcome.forM_ok_iff.mpr
      intro member inside
      obtain ⟨line, written⟩ := storable.members split present member inside
      rw [Store.memberAnswer, written]
      rfl
    rw [Store.saveAnswer, rows, known]
    rfl

end Saving

namespace Tables

theorem setMetadata_same (tables : Tables) (key : String) (value : Option String) :
    (tables.setMetadata key value).metadata? key = some value := by
  simp [metadata?, setMetadata]

theorem setMetadata_other (tables : Tables) {key other : String} (differ : other ≠ key)
    (value : Option String) :
    (tables.setMetadata key value).metadata? other = tables.metadata? other := by
  have unlike : (other == key) = false := by simpa using differ
  simp only [metadata?, setMetadata, List.lookup_cons, unlike]
  induction tables.metadata with
  | nil => rfl
  | cons row rest ih =>
    by_cases same : row.1 = key
    · have passed : (other == row.1) = false := by rw [same]; exact unlike
      rw [List.filter_cons_of_neg (by simpa using same), ih, List.lookup_cons, passed]
    · rw [List.filter_cons_of_pos (by simpa using same), List.lookup_cons, List.lookup_cons, ih]

end Tables

namespace Store

theorem markSaved_metadata (text : String) (tables : Tables) :
    (markSaved text tables).metadata? capKey = some (some text) ∧
      (markSaved text tables).metadata? savedKey = some (some savedMark) ∧
      ∀ key, key ≠ capKey → key ≠ savedKey →
        (markSaved text tables).metadata? key = tables.metadata? key := by
  refine ⟨?_, Tables.setMetadata_same _ _ _, ?_⟩
  · rw [markSaved, Tables.setMetadata_other _ (by decide), Tables.setMetadata_same]
  · intro key notCap notMark
    rw [markSaved, Tables.setMetadata_other _ notMark, Tables.setMetadata_other _ notCap]

theorem capText_ok {cap : Value} {text : String} (known : capText cap = .ok text) :
    text = cap.text := by
  unfold capText at known
  split at known
  · cases known
    rfl
  · cases known

theorem Holds.numbered {start : Nat} {splits : List Split} {rows : List SplitRow}
    {texts : List (List String)} (held : Holds start splits rows texts) :
    rows.map (·.index) = (List.range' start splits.length).map Int.ofNat := by
  induction splits generalizing start rows texts with
  | nil =>
    cases held.rows
    rfl
  | cons split rest ih =>
    obtain ⟨rows, texts⟩ := held
    rw [List.zipIdx_cons] at rows
    cases rows with
    | @cons _ row _ rows made others =>
      cases texts with
      | cons known unknown =>
        obtain ⟨-, _, _, _, -, -, -, rfl⟩ := splitRow_ok made
        rw [List.map_cons, ih ⟨others, unknown⟩, List.length_cons, List.range'_succ, List.map_cons]
        rfl

structure Replaced (store saved : Store) (saving : Saving) : Prop where
  opened : saved.isOpen = true
  idle : saved.database.before = none
  writable : saved.database.writable = store.database.writable
  plan : saving.IsIn saved.tables
  others : ∀ key, key ≠ capKey → key ≠ savedKey →
    saved.tables.metadata? key = store.tables.metadata? key

theorem save_replaced {store saved : Store} {saving : Saving}
    (done : store.save saving.splits saving.cap = (saved, .ok ())) :
    Replaced store saved saving := by
  obtain ⟨opened, rows, texts, text, held, known, rfl⟩ := save_leaves done
  obtain ⟨cap, mark, others⟩ :=
    markSaved_metadata text ⟨store.tables.metadata, rows, planRows 0 texts⟩
  refine ⟨opened, rfl, rfl, ⟨?_, ⟨texts, held, rfl⟩, ?_, mark⟩, others⟩
  · rw [List.range_eq_range']
    exact held.numbered
  · rw [← capText_ok known]
    exact cap

end Store

structure Register where
  store : Store
  latest : Option Saving
deriving Repr, DecidableEq

namespace Register

def attempt (register : Register) (saving : Saving) : Register :=
  match register.store.save saving.splits saving.cap with
  | (saved, .ok ()) => ⟨saved, some saving⟩
  | (kept, .error _) => ⟨kept, register.latest⟩

def run (store : Store) (savings : List Saving) : Register := savings.foldl attempt ⟨store, none⟩

def Describes (store : Store) (register : Register) : Prop :=
  match register.latest with
  | none => register.store.tables = store.tables
  | some saving => saving.IsIn register.store.tables

/-- Where saving has led to from a store: what is in the tables comes from the latest plan, or else
    from the start, and nothing is left under way. -/
structure Follows (store : Store) (register : Register) : Prop where
  opened : register.store.isOpen = true
  idle : register.store.database.before = none
  writable : register.store.database.writable = store.database.writable
  described : Describes store register
  others : ∀ key, key ≠ Store.capKey → key ≠ Store.savedKey →
    register.store.tables.metadata? key = store.tables.metadata? key

/-- What one more save does: it leaves its own plan or the store as it was, and it goes through if all
    its rows can be made, whatever has been tried before. -/
structure IsAtomic (store : Store) (register : Register) : Prop extends Follows store register where
  failed : ∀ (saving : Saving) kept failure,
    register.store.save saving.splits saving.cap = (kept, .error failure) → kept = register.store
  saved : ∀ (saving : Saving) saved, register.store.save saving.splits saving.cap = (saved, .ok ()) →
    saving.IsIn saved.tables
  accepts : ∀ saving : Saving, (register.store.save saving.splits saving.cap).2 = .ok () ↔
    store.database.writable = true ∧ saving.IsStorable

theorem Follows.attempt {store : Store} {register : Register} (follows : Follows store register)
    (saving : Saving) : Follows store (register.attempt saving) := by
  unfold Register.attempt
  split
  · rename_i saved done
    have replaced := Store.save_replaced done
    constructor
    case opened => exact replaced.opened
    case idle => exact replaced.idle
    case writable => exact replaced.writable.trans follows.writable
    case described => exact replaced.plan
    case others =>
      intro key notCap notMark
      exact (replaced.others key notCap notMark).trans (follows.others key notCap notMark)
  · rename_i kept failure failed
    rw [Store.save_error follows.idle failed]
    exact follows

theorem run_follows {store : Store} (opened : store.isOpen = true)
    (idle : store.database.before = none) (savings : List Saving) :
    Follows store (run store savings) := by
  have each : ∀ (savings : List Saving) (register : Register), Follows store register →
      Follows store (savings.foldl attempt register) := by
    intro savings
    induction savings with
    | nil => exact fun register follows => follows
    | cons saving rest ih => exact fun register follows => ih _ (follows.attempt saving)
  exact each savings ⟨store, none⟩ ⟨opened, idle, rfl, rfl, fun _ _ _ => rfl⟩

/-- A store that is saved to again and again is at every point what the latest plan has made of it. A
    save that fails, at whatever row, leaves no trace, and the next one may go through. -/
theorem run_isAtomic {store : Store} (opened : store.isOpen = true)
    (idle : store.database.before = none) (savings : List Saving) :
    IsAtomic store (run store savings) := by
  have follows := run_follows opened idle savings
  refine { follows with failed := ?_, saved := ?_, accepts := ?_ }
  · intro saving kept failure failed
    exact Store.save_error follows.idle failed
  · intro saving saved done
    exact (Store.save_replaced done).plan
  · intro saving
    cases writable : store.database.writable with
    | false =>
      have frozen := follows.writable.trans writable
      rw [Store.save_readOnly follows.opened follows.idle frozen]
      simp
    | true =>
      have answered := Store.save_answer follows.opened follows.idle
        (follows.writable.trans writable) saving.splits saving.cap
      rw [answered, saving.isStorable_iff]
      simp

-- A plan of two splits, one that fails at the last member of its second split, and a smaller one.
def smallMember (name : String) : Member := .entry
  { fileName := .str name
    fullPath := .str ("/data/" ++ name)
    size := .int 1
    timestamp := .int 0
    owner := .str "alice"
    isFolder := .bool false
    basePath := name
    permission := .int 0o644
    credentials := .localFiles (.str "file:///") }

def smallSplit (members : List Member) : Split :=
  ⟨.int 0, members.toArray, .int members.length, .int members.length, true⟩

def threeSavings : List Saving :=
  [⟨[smallSplit [smallMember "a"], smallSplit [smallMember "b", smallMember "c"]], .int 2⟩,
    ⟨[smallSplit [smallMember "d"],
      smallSplit [smallMember "e", .unreadable (.str "/data/f") (.str "no record")]], .int 5⟩,
    ⟨[smallSplit [smallMember "g"]], .int 1⟩]

theorem run_isAtomic_three_saves :
    (Store.ofTables .empty).isOpen = true ∧ (Store.ofTables .empty).database.before = none ∧
      IsAtomic (.ofTables .empty) (run (.ofTables .empty) threeSavings) ∧
      (run (.ofTables .empty) (threeSavings.take 2)).latest = threeSavings[0]? ∧
      (run (.ofTables .empty) threeSavings).latest = threeSavings[2]? := by
  refine ⟨rfl, rfl, run_isAtomic rfl rfl threeSavings, ?_, ?_⟩
  · decide +kernel
  · decide +kernel

end Register
end HarvestPlan
