import HarvestPlan.Harvest
import HarvestPlan.Proofs.Entry.Checked

namespace HarvestPlan.Harvest

theorem ask_eq_ok_iff {cancel : Cancel} {progress asked : Progress} :
    progress.ask cancel = .ok asked ↔
      cancel.isSet progress.asked = false ∧ asked = { progress with asked := progress.asked + 1 } := by
  unfold Progress.ask
  cases cancel.isSet progress.asked <;> simp [eq_comm]

theorem ask_ok {cancel : Cancel} {progress asked : Progress}
    (asking : progress.ask cancel = .ok asked) :
    asked = { progress with asked := progress.asked + 1 } :=
  (ask_eq_ok_iff.mp asking).2

theorem entryOf_ok {root : String} {credentials : Credentials} {status : Status} {entry : Entry}
    (made : entryOf root credentials status = .ok entry) :
    Entry.ofDraft entry.draft = .ok entry ∧ ∃ size basePath, status.size.quantity? = some size ∧
      entry = ⟨status.name, .str status.path, size, .int status.modified, knownOwner status.owner,
        .bool status.isDirectory, basePath, .int status.permission, credentials⟩ := by
  obtain ⟨path, -, made⟩ := Outcome.bind_ok made
  have drafted := Outcome.mapError_ok made
  refine ⟨Entry.ofDraft_draft drafted, ?_⟩
  obtain ⟨size, permission, basePath, sized, permitted, -, rfl⟩ := Entry.ofDraft_eq_ok_iff.mp drafted
  obtain rfl : permission = .int status.permission := by
    have known := (Entry.checkPermission_eq_ok_iff.mp permitted).1
    exact (Option.some.inj (Entry.quantity_eq_some_iff.mpr known)).symm
  exact ⟨size, basePath, Entry.quantity_eq_some_iff.mpr (Entry.checkSize_eq_ok_iff.mp sized).1, rfl⟩

theorem entryOf_made {root : String} (credentials : Credentials) {status : Status}
    {basePath : String} {size : Quantity}
    (based : BasePath.compute status.path root status.name = .ok (.str basePath))
    (relative : basePath.toList.head? ≠ some '/') (sized : status.size.quantity? = some size)
    (natural : size.less (.int 0) = false) (least : 0 ≤ status.permission)
    (most : status.permission ≤ Entry.greatestPermission) :
    entryOf root credentials status =
      .ok ⟨status.name, .str status.path, size, .int status.modified, knownOwner status.owner,
        .bool status.isDirectory, basePath, .int status.permission, credentials⟩ := by
  have sizeChecked : Entry.checkSize (.str status.path) status.size = .ok size :=
    Entry.checkSize_eq_ok_iff.mpr ⟨Entry.quantity_eq_some_iff.mp sized, natural⟩
  have permissionChecked : Entry.checkPermission (.int status.permission) =
      .ok (.int status.permission) :=
    Entry.checkPermission_eq_ok_iff.mpr ⟨rfl, Entry.isPermission_int least most⟩
  have pathChecked : Entry.checkBasePath (.str basePath) = .ok basePath :=
    Entry.checkBasePath_eq_ok_iff.mpr ⟨rfl, relative⟩
  simp only [entryOf, based, Entry.ofDraft, bind, Except.bind, sizeChecked, permissionChecked,
    pathChecked]
  rfl

theorem chooseCredentials_ok {connection : Connection} {given : Option Credentials}
    {credentials : Credentials} (chosen : chooseCredentials connection given = .ok credentials) :
    credentials = given.getD connection.credentials := by
  unfold chooseCredentials at chosen
  simp only at chosen
  split at chosen
  · cases chosen
  · split at chosen
    · exact (Except.ok.inj chosen).symm
    · cases chosen

theorem openLocal_ok {fs : Filesystem} {uri : Json.Value} {backend : Backend}
    (opened : Connection.openLocal fs uri = .ok backend) : backend = fs.backend := by
  unfold Connection.openLocal at opened
  obtain ⟨parsed, -, opened⟩ := Outcome.bind_ok opened
  simp only at opened
  split at opened
  · cases opened
  · obtain ⟨isDirectory, -, opened⟩ := Outcome.bind_ok opened
    cases isDirectory with
    | false => cases opened
    | true => exact (Except.ok.inj opened).symm

theorem run_opened {surroundings : Surroundings} {connection : Connection}
    {given : Option Credentials} {credentials : Credentials} {backend : Backend}
    (chosen : chooseCredentials connection given = .ok credentials)
    (opened : connection.openIn surroundings = .ok backend) (roots : List String)
    (recursive : Bool) (cancel : Cancel) :
    (run surroundings connection given roots recursive cancel).result =
      HarvestResult.ofProgress <$> visitRoots ⟨backend, given.getD connection.credentials,
        recursive, cancel, connection.walkLimit surroundings⟩ connection.backendType.tag roots := by
  rw [← chooseCredentials_ok chosen]
  simp only [run, runWith, chosen, opened, bind, Except.bind, pure, Except.pure]

theorem run_cases (surroundings : Surroundings) (connection : Connection)
    (given : Option Credentials) :
    (∃ credentials backend, chooseCredentials connection given = .ok credentials ∧
      connection.openIn surroundings = .ok backend) ∨
    ∃ cause, (chooseCredentials connection given = .error cause ∨
      connection.openIn surroundings = .error cause) ∧
      ∀ roots recursive cancel,
        run surroundings connection given roots recursive cancel =
          ⟨[], .error ⟨cause, .start⟩⟩ := by
  cases chosen : chooseCredentials connection given with
  | error cause =>
    refine .inr ⟨cause, .inl rfl, fun roots recursive cancel => ?_⟩
    simp only [run, runWith, chosen, bind, Except.bind]
  | ok credentials =>
    cases opened : connection.openIn surroundings with
    | error cause =>
      refine .inr ⟨cause, .inr rfl, fun roots recursive cancel => ?_⟩
      simp only [run, runWith, chosen, opened, bind, Except.bind]
    | ok backend => exact .inl ⟨credentials, backend, rfl, rfl⟩

theorem run_ok {surroundings : Surroundings} {connection : Connection} {given : Option Credentials}
    {roots : List String} {recursive : Bool} {cancel : Cancel} {result : HarvestResult}
    (done : (run surroundings connection given roots recursive cancel).result = .ok result) :
    ∃ backend progress, connection.openIn surroundings = .ok backend ∧
      visitRoots ⟨backend, given.getD connection.credentials, recursive, cancel,
        connection.walkLimit surroundings⟩ connection.backendType.tag roots = .ok progress ∧
      result = .ofProgress progress := by
  rcases run_cases surroundings connection given with
    ⟨credentials, backend, chosen, opened⟩ | ⟨cause, -, ended⟩
  · rw [run_opened chosen opened] at done
    obtain ⟨progress, walked, rfl⟩ := Outcome.map_ok done
    exact ⟨backend, progress, opened, walked, rfl⟩
  · rw [ended] at done
    cases done

theorem run_error {surroundings : Surroundings} {connection : Connection}
    {given : Option Credentials} {roots : List String} {recursive : Bool} {cancel : Cancel}
    {stopped : Stopped}
    (failed : (run surroundings connection given roots recursive cancel).result = .error stopped) :
    chooseCredentials connection given = .error stopped.cause ∨
      connection.openIn surroundings = .error stopped.cause ∨
      ∃ backend, connection.openIn surroundings = .ok backend ∧
        visitRoots ⟨backend, given.getD connection.credentials, recursive, cancel,
          connection.walkLimit surroundings⟩ connection.backendType.tag roots = .error stopped := by
  rcases run_cases surroundings connection given with
    ⟨credentials, backend, chosen, opened⟩ | ⟨cause, caused, ended⟩
  · rw [run_opened chosen opened] at failed
    exact .inr (.inr ⟨backend, opened, Outcome.map_error failed⟩)
  · rw [ended] at failed
    cases failed
    exact caused.imp_right .inl

theorem run_chosen {surroundings : Surroundings} {connection : Connection}
    {given : Option Credentials} {roots : List String} {recursive : Bool} {cancel : Cancel}
    {result : HarvestResult}
    (done : (run surroundings connection given roots recursive cancel).result = .ok result) :
    chooseCredentials connection given = .ok (given.getD connection.credentials) := by
  rcases run_cases surroundings connection given with
    ⟨credentials, backend, chosen, opened⟩ | ⟨cause, -, ended⟩
  · rw [chosen, chooseCredentials_ok chosen]
  · rw [ended] at done
    cases done

theorem run_through {surroundings : Surroundings} {connection : Connection}
    {given : Option Credentials} {credentials : Credentials} {roots : List String}
    {recursive : Bool} {cancel : Cancel} {backend : Backend} {progress : Progress}
    (chosen : chooseCredentials connection given = .ok credentials)
    (opened : connection.openIn surroundings = .ok backend)
    (walked : visitRoots ⟨backend, credentials, recursive, cancel, connection.walkLimit surroundings⟩
      connection.backendType.tag roots = .ok progress) :
    (run surroundings connection given roots recursive cancel).result =
      .ok (.ofProgress progress) := by
  rw [chooseCredentials_ok chosen] at walked
  rw [run_opened chosen opened, walked]
  rfl

theorem visitRoot_refused {setting : Setting} {root : String} {cause : Failure}
    (refused : setting.backend.normalizeRoot root = .error cause) (progress : Progress) :
    visitRoot setting root progress = .error ⟨cause, progress⟩ := by
  simp only [visitRoot, refused]
  rfl

theorem visitRoot_normalized {setting : Setting} {root normalized : String}
    (normalizing : setting.backend.normalizeRoot root = .ok normalized) (progress : Progress) :
    visitRoot setting root progress = match setting.backend.stat normalized with
      | .ok status => walk setting (treeRoot normalized status) setting.limit [(status, 0)] progress
      | .error (.system error) =>
        .ok (progress.warn (if error.isMissing then .missingRoot else .readError) root error.message)
      | .error cause => .error ⟨cause, progress⟩ := by
  simp only [visitRoot, normalizing]
  rfl

theorem visitRoots_single (setting : Setting) (tag root : String) :
    visitRoots setting tag [root] = askAndVisit setting tag .start root := by
  simp [visitRoots]

theorem visitRoots_single_ok {setting : Setting} {tag root : String} {progress : Progress} :
    visitRoots setting tag [root] = .ok progress ↔
      setting.cancel.isSet 0 = false ∧ visitRoot setting root ⟨#[], #[], 1⟩ = .ok progress := by
  rw [visitRoots_single, askAndVisit]
  cases set : setting.cancel.isSet 0 with
  | true => simp [Progress.ask, Progress.start, set, bind, Except.bind]
  | false =>
    have asked : Progress.start.ask setting.cancel = .ok ⟨#[], #[], 1⟩ := by
      simp [Progress.ask, Progress.start, set]
    rw [asked]
    change (visitRoot setting root ⟨#[], #[], 1⟩).mapError _ = _ ↔ _
    cases visitRoot setting root ⟨#[], #[], 1⟩ <;> simp [Outcome.ok_mapError, Outcome.error_mapError]

end HarvestPlan.Harvest
