import Mathlib.Data.List.Forall2
import HarvestPlan.Store.Save
import HarvestPlan.Proofs.Number.Whole
import HarvestPlan.Proofs.Outcome

namespace HarvestPlan

namespace Change

theorem update_ok {f : Tables → Tables} {database changed : Database}
    (done : update f database = (changed, .ok ())) :
    changed = { database with tables := f database.tables } := by
  unfold update write at done
  split at done
  · cases done
  · cases done
    rfl

theorem andThen_ok {first second : Change} {database changed : Database}
    (done : first.andThen second database = (changed, .ok ())) :
    ∃ middle, first database = (middle, .ok ()) ∧ second middle = (changed, .ok ()) := by
  unfold andThen at done
  split at done
  · exact ⟨_, ‹_›, done⟩
  · cases done

theorem require_ok {α : Type} {value : Except Failure α} {next : α → Change}
    {database changed : Database} (done : require value next database = (changed, .ok ())) :
    ∃ a, value = .ok a ∧ next a database = (changed, .ok ()) := by
  cases value with
  | error failure => cases done
  | ok a => exact ⟨a, rfl, done⟩

theorem transaction_ok {body : Change} {database changed : Database}
    (done : transaction body database = (changed, .ok ())) :
    ∃ last, body { database with before := some database.tables } = (last, .ok ()) ∧
      changed = { last with before := none } := by
  obtain ⟨begun, started, done⟩ := andThen_ok done
  unfold start at started
  split at started
  · cases started
  · cases started
    split at done
    · cases done
      exact ⟨_, ‹_›, rfl⟩
    · cases done

end Change

namespace Column

theorem integer_ok {n kept : Int} (fits : integer n = .ok kept) : kept = n := by
  unfold integer at fits
  split at fits
  · exact (Except.ok.inj fits).symm
  · cases fits

theorem present_ok {value kept : Json.Value} (known : present value = .ok kept) :
    kept = value := by
  unfold present at known
  split at known
  · cases known
  · exact (Except.ok.inj known).symm

end Column

namespace Store

def entryRows (index : Nat) : (position : Nat) → List String → List EntryRow
  | _, [] => []
  | position, text :: texts =>
    ⟨.ofInt index, .ofInt position, text⟩ :: entryRows index (position + 1) texts

def planRows : (index : Nat) → List (List String) → List EntryRow
  | _, [] => []
  | index, texts :: others => entryRows index 0 texts ++ planRows (index + 1) others

def AreTextsOf (split : Split) (texts : List String) : Prop :=
  split.members.toList.Forall₂ (fun member text => member.recordText = .ok text) texts

structure Holds (index : Nat) (splits : List Split) (rows : List SplitRow)
    (texts : List (List String)) : Prop where
  rows : (splits.zipIdx index).Forall₂ (fun split row => splitRow split.2 split.1 = .ok row) rows
  texts : splits.Forall₂ AreTextsOf texts

theorem splitRow_ok {index : Nat} {split : Split} {row : SplitRow}
    (made : splitRow index split = .ok row) :
    Column.integer index = .ok (index : Int) ∧
      ∃ fingerprint load total, split.fingerprint = .ok fingerprint ∧
        Column.bound split.load = .ok load ∧
        Column.bound (.ofQuantity split.totalBytes) = .ok total ∧
        row = ⟨index, Column.numeric load, Column.numeric total, fingerprint⟩ := by
  obtain ⟨fingerprint, hashed, made⟩ := Outcome.bind_ok made
  obtain ⟨kept, fits, made⟩ := Outcome.bind_ok made
  obtain ⟨load, loaded, made⟩ := Outcome.bind_ok made
  obtain ⟨total, totalled, made⟩ := Outcome.bind_ok made
  obtain ⟨storedLoad, load_eq, made⟩ := Outcome.bind_ok made
  obtain ⟨storedTotal, total_eq, made⟩ := Outcome.bind_ok made
  obtain rfl := Column.integer_ok fits
  obtain rfl := Column.present_ok load_eq
  obtain rfl := Column.present_ok total_eq
  cases made
  exact ⟨fits, fingerprint, load, total, hashed, loaded, totalled, rfl⟩

theorem entryRow_ok {index : Nat} {member : Member} {position : Nat} {row : EntryRow}
    (made : entryRow index (member, position) = .ok row) :
    ∃ text, member.recordText = .ok text ∧ row = ⟨.ofInt index, .ofInt position, text⟩ := by
  obtain ⟨text, known, made⟩ := Outcome.bind_ok made
  obtain ⟨split, split_eq, made⟩ := Outcome.bind_ok made
  obtain ⟨place, place_eq, made⟩ := Outcome.bind_ok made
  cases made
  exact ⟨text, known, by rw [Column.integer_ok split_eq, Column.integer_ok place_eq]⟩

theorem insertMembers_ok {index position : Nat} {members : List Member}
    {database changed : Database}
    (done : Change.each (insertMember index) (members.zipIdx position) database =
      (changed, .ok ())) :
    ∃ texts, members.Forall₂ (fun member text => member.recordText = .ok text) texts ∧
      changed = { database with tables := { database.tables with
        entries := database.tables.entries ++ entryRows index position texts } } := by
  induction members generalizing position database with
  | nil =>
    cases done
    exact ⟨[], .nil, by simp [entryRows]⟩
  | cons member rest ih =>
    obtain ⟨middle, inserted, done⟩ := Change.andThen_ok done
    obtain ⟨row, made, inserted⟩ := Change.require_ok inserted
    obtain ⟨text, known, rfl⟩ := entryRow_ok made
    have pushed := Change.update_ok inserted
    obtain ⟨texts, others, rfl⟩ := ih done
    refine ⟨text :: texts, .cons known others, ?_⟩
    rw [pushed]
    simp [Tables.pushEntry, entryRows]

theorem insertSplits_ok {index : Nat} {splits : List Split} {database changed : Database}
    (done : Change.each insertWhole (splits.zipIdx index) database = (changed, .ok ())) :
    ∃ rows texts, Holds index splits rows texts ∧
      changed = { database with tables := { database.tables with
        splits := database.tables.splits ++ rows
        entries := database.tables.entries ++ planRows index texts } } := by
  induction splits generalizing index database with
  | nil =>
    cases done
    exact ⟨[], [], ⟨.nil, .nil⟩, by simp [planRows]⟩
  | cons split rest ih =>
    obtain ⟨middle, inserted, done⟩ := Change.andThen_ok done
    obtain ⟨row, made, inserted⟩ := Change.require_ok inserted
    obtain ⟨begun, pushed, inserted⟩ := Change.andThen_ok inserted
    obtain ⟨texts, known, filled⟩ := insertMembers_ok inserted
    obtain ⟨rows, others, held, rfl⟩ := ih done
    refine ⟨row :: rows, texts :: others, ⟨.cons made held.rows, .cons known held.texts⟩, ?_⟩
    rw [filled, Change.update_ok pushed]
    simp [Tables.pushSplit, planRows]

theorem replacePlan_ok {splits : List Split} {cap : Json.Value} {database changed : Database}
    (done : replacePlan splits cap database = (changed, .ok ())) :
    ∃ rows texts text, Holds 0 splits rows texts ∧ capText cap = .ok text ∧
      changed = { database with
        tables := markSaved text ⟨database.tables.metadata, rows, planRows 0 texts⟩ } := by
  obtain ⟨cleared, emptied, replaced⟩ := Change.andThen_ok done
  obtain ⟨filled, inserted, marked⟩ := Change.andThen_ok replaced
  obtain ⟨rows, texts, held, kept⟩ := insertSplits_ok inserted
  obtain ⟨text, known, marked⟩ := Change.require_ok marked
  have bare := Change.update_ok emptied
  have last := Change.update_ok marked
  subst bare kept last
  exact ⟨rows, texts, text, held, known, by simp [Tables.withoutPlan]⟩

theorem run_ok {store saved : Store} {change : Change}
    (done : store.run change = (saved, .ok ())) :
    store.isOpen = true ∧ ∃ database, change store.database = (database, .ok ()) ∧
      saved = { store with database := database } := by
  unfold run at done
  cases opened : store.isOpen with
  | false =>
    rw [opened] at done
    cases done
  | true =>
    rw [opened] at done
    simp only [Bool.not_true, Bool.false_eq_true, if_false, Prod.mk.injEq] at done
    exact ⟨rfl, _, Prod.ext rfl done.2, done.1.symm⟩

theorem save_leaves {store saved : Store} {splits : List Split} {cap : Json.Value}
    (done : store.save splits cap = (saved, .ok ())) :
    store.isOpen = true ∧ ∃ rows texts text, Holds 0 splits rows texts ∧ capText cap = .ok text ∧
      saved = { store with database :=
        { tables := markSaved text ⟨store.tables.metadata, rows, planRows 0 texts⟩
          before := none
          writable := store.database.writable } } := by
  obtain ⟨opened, database, changed, rfl⟩ := run_ok done
  obtain ⟨last, replaced, rfl⟩ := Change.transaction_ok changed
  obtain ⟨rows, texts, text, held, known, rfl⟩ := replacePlan_ok replaced
  exact ⟨opened, rows, texts, text, held, known, rfl⟩

theorem save_ok {store saved : Store} {splits : List Split} {cap : Json.Value}
    (done : store.save splits cap = (saved, .ok ())) :
    saved.isOpen = true ∧ ∃ texts, Holds 0 splits saved.tables.splits texts ∧
      saved.tables.entries = planRows 0 texts := by
  obtain ⟨opened, rows, texts, text, held, -, rfl⟩ := save_leaves done
  exact ⟨opened, texts, held, rfl⟩

end Store
end HarvestPlan
