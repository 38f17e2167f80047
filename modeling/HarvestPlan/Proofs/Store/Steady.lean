import HarvestPlan.Store.Save
import HarvestPlan.Proofs.Outcome

/-!
Steady changes: they leave all but the tables alone, and how they end does not hang on what is in the
tables. Saving is such a change, so a save that fails takes back all that it has done.
-/
namespace HarvestPlan

namespace Change

variable {α : Type} {first second : Change} {a b : Except Failure Unit}

structure IsSteady (change : Change) (answer : Except Failure Unit) : Prop where
  before : ∀ database, (change database).1.before = database.before
  writable : ∀ database, (change database).1.writable = database.writable
  answer : ∀ database, database.writable = true → (change database).2 = answer

theorem done_steady : IsSteady done (.ok ()) :=
  ⟨fun _ => rfl, fun _ => rfl, fun _ _ => rfl⟩

theorem fail_steady (failure : Failure) : (fail failure).IsSteady (.error failure) :=
  ⟨fun _ => rfl, fun _ => rfl, fun _ _ => rfl⟩

theorem update_steady (f : Tables → Tables) : (update f).IsSteady (.ok ()) := by
  have kept : ∀ database, (update f database).1.before = database.before ∧
      (update f database).1.writable = database.writable := by
    intro database
    cases writable : database.writable <;> simp [update, write, writable]
  refine ⟨fun database => (kept database).1, fun database => (kept database).2, ?_⟩
  intro database writable
  simp [update, write, writable]

theorem IsSteady.andThen (one : first.IsSteady a) (two : second.IsSteady b) :
    (first.andThen second).IsSteady (a >>= fun _ => b) := by
  have reached : ∀ database middle result, first database = (middle, result) →
      middle.before = database.before ∧ middle.writable = database.writable := by
    intro database middle result same
    have before := one.before database
    have writable := one.writable database
    rw [same] at before writable
    exact ⟨before, writable⟩
  constructor
  · intro database
    unfold Change.andThen
    split
    · rename_i middle same
      rw [two.before, (reached _ _ _ same).1]
    · rename_i middle failure same
      exact (reached _ _ _ same).1
  · intro database
    unfold Change.andThen
    split
    · rename_i middle same
      rw [two.writable, (reached _ _ _ same).2]
    · rename_i middle failure same
      exact (reached _ _ _ same).2
  · intro database writable
    have ended := one.answer database writable
    unfold Change.andThen
    split
    · rename_i middle same
      rw [same] at ended
      rw [← ended]
      exact two.answer middle ((reached _ _ _ same).2.trans writable)
    · rename_i middle failure same
      rw [same] at ended
      rw [← ended]
      rfl

theorem require_steady {value : Except Failure α} {next : α → Change}
    {answer : α → Except Failure Unit} (each : ∀ a, (next a).IsSteady (answer a)) :
    (require value next).IsSteady (value >>= answer) := by
  cases value with
  | error failure => exact fail_steady failure
  | ok a => exact each a

theorem each_steady {change : α → Change} {answer : α → Except Failure Unit}
    (each : ∀ a, (change a).IsSteady (answer a)) (items : List α) :
    (Change.each change items).IsSteady (items.forM answer) := by
  induction items with
  | nil => exact done_steady
  | cons item rest ih => exact (each item).andThen ih

/-- Where no transaction is open, one over a steady change that fails has changed nothing. -/
theorem transaction_error {body : Change} {database changed : Database} {failure : Failure}
    (steady : body.IsSteady a) (idle : database.before = none)
    (failed : transaction body database = (changed, .error failure)) : changed = database := by
  have begun : start database = ({ database with before := some database.tables }, .ok ()) := by
    simp [start, idle]
  simp only [transaction, Change.andThen, begun] at failed
  split at failed
  · cases failed
  · rename_i last cause ended
    have before := steady.before { database with before := some database.tables }
    have writable := steady.writable { database with before := some database.tables }
    rw [ended] at before writable
    cases failed
    obtain ⟨tables, _, _⟩ := database
    cases idle
    simp only at before writable
    simp [rollback, before, writable]

theorem transaction_answer {body : Change} {database : Database} (steady : body.IsSteady a)
    (idle : database.before = none) (writable : database.writable = true) :
    (transaction body database).2 = a := by
  have ended := steady.answer { database with before := some database.tables } writable
  simp only [transaction, Change.andThen, start, idle]
  rw [← ended]
  split
  · rename_i last same
    rw [same]
  · rename_i last failure same
    rw [same]

end Change

namespace Store

open Json (Value)

def memberAnswer (index : Nat) (member : Member × Nat) : Except Failure Unit := do
  let _ ← entryRow index member
  pure ()

def wholeAnswer (split : Split × Nat) : Except Failure Unit := do
  let _ ← splitRow split.2 split.1
  split.1.members.toList.zipIdx.forM (memberAnswer split.2)

def saveAnswer (splits : List Split) (cap : Value) : Except Failure Unit := do
  splits.zipIdx.forM wholeAnswer
  let _ ← capText cap
  pure ()

theorem insertMember_steady (index : Nat) (member : Member × Nat) :
    (insertMember index member).IsSteady (memberAnswer index member) :=
  Change.require_steady fun row => Change.update_steady (·.pushEntry row)

theorem insertWhole_steady (split : Split × Nat) :
    (insertWhole split).IsSteady (wholeAnswer split) := by
  refine Change.require_steady fun row => ?_
  exact (Change.update_steady (·.pushSplit row)).andThen
    (Change.each_steady (insertMember_steady split.2) _)

theorem replacePlan_steady (splits : List Split) (cap : Value) :
    (replacePlan splits cap).IsSteady (saveAnswer splits cap) := by
  have marked : (Change.require (capText cap) fun cap =>
      Change.update (markSaved cap)).IsSteady (do
        let _ ← capText cap
        pure ()) :=
    Change.require_steady fun cap => Change.update_steady (markSaved cap)
  exact (Change.update_steady (·.withoutPlan)).andThen
    ((Change.each_steady insertWhole_steady splits.zipIdx).andThen marked)

theorem run_error {store kept : Store} {change : Change} {failure : Failure}
    (failed : store.run change = (kept, .error failure)) :
    kept = store ∨ ∃ database, change store.database = (database, .error failure) ∧
      kept = { store with database := database } := by
  unfold run at failed
  split at failed
  · cases failed
    exact .inl rfl
  · obtain ⟨same, ended⟩ := Prod.mk.inj failed
    exact .inr ⟨_, Prod.ext rfl ended, same.symm⟩

theorem save_error {store kept : Store} {splits : List Split} {cap : Value} {failure : Failure}
    (idle : store.database.before = none)
    (failed : store.save splits cap = (kept, .error failure)) : kept = store := by
  rcases run_error failed with rfl | ⟨database, changed, rfl⟩
  · rfl
  · rw [Change.transaction_error (replacePlan_steady splits cap) idle changed]

theorem save_answer {store : Store} (opened : store.isOpen = true)
    (idle : store.database.before = none) (writable : store.database.writable = true)
    (splits : List Split) (cap : Value) : (store.save splits cap).2 = saveAnswer splits cap := by
  have ended := Change.transaction_answer (replacePlan_steady splits cap) idle writable
  simp [save, run, opened, ended]

theorem save_readOnly {store : Store} (opened : store.isOpen = true)
    (idle : store.database.before = none) (frozen : store.database.writable = false)
    (splits : List Split) (cap : Value) :
    (store.save splits cap).2 = .error .storeReadOnly := by
  simp [save, run, opened, Change.transaction, Change.andThen, Change.start, idle, replacePlan,
    Change.update, Change.write, frozen]

end Store
end HarvestPlan
