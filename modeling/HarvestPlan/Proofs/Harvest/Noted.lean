import HarvestPlan.Proofs.Harvest.Meeting
import HarvestPlan.Proofs.Lists

namespace HarvestPlan

/-- The entries that a harvest gives back, or had noted when it broke off. -/
def HarvestOutcome.noted (outcome : HarvestOutcome) : List Entry :=
  match outcome.result with
  | .ok result => result.entries
  | .error stopped => stopped.progress.entries.toList

namespace Harvest

inductive Visits (setting : Setting) (root : String) : String → List Status → Prop
  | missed (base : String) : Visits setting root base []
  | seen {normalized : String} {status : Status} {met : List Status}
      (normalizing : setting.backend.normalizeRoot root = .ok normalized)
      (looking : setting.backend.stat normalized = .ok status)
      (meets : Meets setting [status] met) : Visits setting root (treeRoot normalized status) met

def NotesRoot (setting : Setting) (root : String) (entries : List Entry) : Prop :=
  ∃ base met, Visits setting root base met ∧
    met.Forall₂ (fun status entry => entryOf base setting.credentials status = .ok entry) entries

theorem visitRoot_notes (setting : Setting) (root : String) (progress : Progress) :
    ∃ entries, NotesRoot setting root entries ∧
      (reached (visitRoot setting root progress)).entries.toList =
        progress.entries.toList ++ entries := by
  have silent : ∀ after : Progress, after.entries = progress.entries →
      ∃ entries, NotesRoot setting root entries ∧
        after.entries.toList = progress.entries.toList ++ entries :=
    fun after same => ⟨[], ⟨"", [], .missed "", .nil⟩, by simp [same]⟩
  cases normalizing : setting.backend.normalizeRoot root with
  | error cause =>
    rw [visitRoot_refused normalizing]
    exact silent _ rfl
  | ok normalized =>
    rw [visitRoot_normalized normalizing]
    split
    · rename_i status looking
      obtain ⟨met, meets, entries, noted, each⟩ :=
        walk_meets setting (treeRoot normalized status) setting.limit [(status, 0)] progress
      exact ⟨entries, ⟨_, met, .seen normalizing looking meets, each⟩, noted⟩
    · exact silent _ (warn_entries _ _ _ _)
    · exact silent _ rfl

theorem visitRoot_error {setting : Setting} {root : String} {progress : Progress} {stopped : Stopped}
    (failed : visitRoot setting root progress = .error stopped) :
    setting.backend.normalizeRoot root = .error stopped.cause ∨
      ∃ normalized, setting.backend.normalizeRoot root = .ok normalized ∧
        (setting.backend.stat normalized = .error stopped.cause ∧ stopped.progress = progress ∨
          ∃ status, setting.backend.stat normalized = .ok status ∧
            walk setting (treeRoot normalized status) setting.limit [(status, 0)] progress =
              .error stopped) := by
  rcases Outcome.bind_error failed with failed | ⟨normalized, normalizing, failed⟩
  · obtain ⟨cause, normalizing, rfl⟩ := Outcome.mapError_error failed
    exact .inl normalizing
  · refine .inr ⟨normalized, Outcome.mapError_ok normalizing, ?_⟩
    split at failed
    · rename_i status looking
      exact .inr ⟨status, looking, failed⟩
    · cases failed
    · rename_i looking
      cases failed
      exact .inl ⟨looking, rfl⟩

theorem locate_progress (root tag : String) (stopped : Stopped) :
    (locate root tag stopped).progress = stopped.progress := by
  unfold locate
  split <;> rfl

/-- The roots that a harvest came to, each with the entries noted of it; all roots if it went
    through. -/
def NotesRoots (setting : Setting) (roots : List String) (outcome : Except Stopped Progress)
    (entries : List Entry) : Prop :=
  ∃ seen parts, seen <+: roots ∧ seen.Forall₂ (NotesRoot setting) parts ∧ entries = parts.flatten ∧
    ∀ done, outcome = .ok done → seen = roots

theorem visitRoots_notes (setting : Setting) (tag : String) (roots : List String)
    (progress : Progress) :
    ∃ entries, NotesRoots setting roots (roots.foldlM (askAndVisit setting tag) progress) entries ∧
      (reached (roots.foldlM (askAndVisit setting tag) progress)).entries.toList =
        progress.entries.toList ++ entries := by
  induction roots generalizing progress with
  | nil => exact ⟨[], ⟨[], [], by simp, .nil, rfl, fun _ _ => rfl⟩, by simp [reached, pure, Except.pure]⟩
  | cons root rest ih =>
    cases asking : progress.ask setting.cancel with
    | error stopped =>
      refine ⟨[], ⟨[], [], by simp, .nil, rfl, ?_⟩, ?_⟩
      · intro done went
        simp [askAndVisit, asking, bind, Except.bind] at went
      · simp [askAndVisit, asking, bind, Except.bind, reached, (ask_error asking).2]
    | ok asked =>
      have same : asked.entries = progress.entries := by rw [ask_ok asking]
      obtain ⟨entries, notes, noted⟩ := visitRoot_notes setting root asked
      rw [same] at noted
      cases visited : visitRoot setting root asked with
      | error stopped =>
        refine ⟨entries, ⟨[root], [entries], by simp, .cons notes .nil, by simp, ?_⟩, ?_⟩
        · intro done went
          simp [askAndVisit, asking, visited, Outcome.error_mapError, bind, Except.bind] at went
        · rw [visited] at noted
          rw [← noted]
          simp [askAndVisit, asking, visited, Outcome.error_mapError, bind, Except.bind, reached,
            locate_progress]
      | ok after =>
        obtain ⟨others, ⟨seen, parts, isPrefix, each, rfl, whole⟩, notedRest⟩ := ih after
        have unfolded : (root :: rest).foldlM (askAndVisit setting tag) progress =
            rest.foldlM (askAndVisit setting tag) after := by
          simp [askAndVisit, asking, visited, Outcome.ok_mapError, bind, Except.bind]
        rw [unfolded]
        rw [visited] at noted
        refine ⟨entries ++ parts.flatten, ⟨root :: seen, entries :: parts, ?_, .cons notes each,
          by simp, fun done went => by rw [whole done went]⟩, ?_⟩
        · exact List.prefix_cons_inj root |>.mpr isPrefix
        · rw [notedRest, ← List.append_assoc, ← noted]
          rfl

theorem visitRoots_error {setting : Setting} {tag : String} {roots : List String}
    {progress : Progress} {stopped : Stopped}
    (failed : roots.foldlM (askAndVisit setting tag) progress = .error stopped) :
    stopped.cause = .cancelled ∨ ∃ root ∈ roots, ∃ before inner,
      visitRoot setting root before = .error inner ∧ stopped = locate root tag inner := by
  obtain ⟨earlier, root, later, middle, rfl, -, failed⟩ := Outcome.foldlM_error failed
  rcases Outcome.bind_error failed with failed | ⟨asked, -, failed⟩
  · exact .inl (ask_error failed).1
  · obtain ⟨inner, stuck, rfl⟩ := Outcome.mapError_error failed
    exact .inr ⟨root, by simp, asked, inner, stuck, rfl⟩

theorem run_noted {surroundings : Surroundings} {connection : Connection}
    {given : Option Credentials} {credentials : Credentials} {backend : Backend}
    (chosen : chooseCredentials connection given = .ok credentials)
    (opened : connection.openIn surroundings = .ok backend) (roots : List String)
    (recursive : Bool) (cancel : Cancel) :
    (run surroundings connection given roots recursive cancel).noted =
      (reached (visitRoots ⟨backend, given.getD connection.credentials, recursive, cancel,
        connection.walkLimit surroundings⟩ connection.backendType.tag roots)).entries.toList := by
  rw [HarvestOutcome.noted, run_opened chosen opened]
  cases visitRoots _ _ roots <;> rfl

theorem run_notes (surroundings : Surroundings) (connection : Connection)
    (given : Option Credentials) (roots : List String) (recursive : Bool) (cancel : Cancel) :
    let outcome := run surroundings connection given roots recursive cancel
    ∃ seen parts, seen <+: roots ∧
      seen.Forall₂ (fun root entries => ∃ backend, connection.openIn surroundings = .ok backend ∧
        NotesRoot ⟨backend, given.getD connection.credentials, recursive, cancel,
          connection.walkLimit surroundings⟩ root entries) parts ∧
      outcome.noted = parts.flatten ∧ ∀ result, outcome.result = .ok result → seen = roots := by
  intro outcome
  rcases run_cases surroundings connection given with
    ⟨credentials, backend, chosen, opened⟩ | ⟨cause, -, ended⟩
  · obtain ⟨entries, ⟨seen, parts, isPrefix, each, rfl, whole⟩, same⟩ :=
      visitRoots_notes ⟨backend, given.getD connection.credentials, recursive, cancel,
        connection.walkLimit surroundings⟩ connection.backendType.tag roots .start
    refine ⟨seen, parts, isPrefix,
      each.imp fun root entries notes => ⟨backend, opened, notes⟩, ?_, ?_⟩
    · rw [run_noted chosen opened]
      exact same.trans (by simp [Progress.start])
    · intro final went
      rw [run_opened chosen opened] at went
      obtain ⟨done, walked, -⟩ := Outcome.map_ok went
      exact whole done walked
  · have same : outcome = ⟨[], .error ⟨cause, .start⟩⟩ := ended roots recursive cancel
    refine ⟨[], [], by simp, .nil, ?_, by simp [same]⟩
    rw [same]
    rfl

end Harvest

inductive Backend.Gives (backend : Backend) (status : Status) : Prop
  | looked {path : String} (looking : backend.stat path = .ok status)
  | listed {path : String} {children : List Status}
      (listing : (backend.list path).children = .ok children) (present : status ∈ children)

namespace Harvest

theorem Visits.gives {setting : Setting} {root base : String} {met : List Status}
    (visits : Visits setting root base met) : ∀ status ∈ met, setting.backend.Gives status := by
  cases visits with
  | missed => simp
  | seen normalizing looking meets =>
    refine meets.all ?_ ?_
    · intro status children _ opens child present
      rcases opens with rfl | ⟨-, listing⟩
      · cases present
      · exact .listed listing present
    · intro status present
      rw [List.mem_singleton.mp present]
      exact .looked looking

/-- Every entry that a harvest notes is that of a status which the storage gave. -/
theorem run_made (surroundings : Surroundings) (connection : Connection)
    (given : Option Credentials) (roots : List String) (recursive : Bool) (cancel : Cancel) :
    ∀ entry ∈ (run surroundings connection given roots recursive cancel).noted,
      ∃ backend base status, connection.openIn surroundings = .ok backend ∧
        backend.Gives status ∧
        entryOf base (given.getD connection.credentials) status = .ok entry := by
  obtain ⟨seen, parts, -, each, noted, -⟩ :=
    run_notes surroundings connection given roots recursive cancel
  intro entry present
  rw [noted] at present
  obtain ⟨entries, part, present⟩ := List.mem_flatten.mp present
  obtain ⟨root, -, backend, opened, base, met, visits, made⟩ := Lists.exists_left each part
  obtain ⟨status, held, same⟩ := Lists.exists_left made present
  exact ⟨backend, base, status, opened, visits.gives status held, same⟩

end Harvest
end HarvestPlan
