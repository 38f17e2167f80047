import HarvestPlan.Proofs.Harvest.Local
import HarvestPlan.Proofs.Harvest.Noted
import HarvestPlan.Proofs.Storage.Fatal

/-!
A harvest that loses its storage hands over what it has noted until then. A harvest to which the lost
call is answered notes the same entries first, so that those handed over are a prefix of its own.
-/
namespace HarvestPlan.Harvest

open scoped List

/-- The first is the second, or it breaks off at a lost call after entries that the second begins
    with. -/
def Foreruns (first second : Except Stopped Progress) : Prop :=
  second = first ∨ ∃ stopped context, first = .error stopped ∧ stopped.cause = .lost context ∧
    stopped.progress.entries.toList <+: (reached second).entries.toList

theorem Foreruns.begins {first second : Except Stopped Progress} (foreruns : Foreruns first second)
    {stopped : Stopped} (failed : first = .error stopped) :
    stopped.progress.entries.toList <+: (reached second).entries.toList := by
  rcases foreruns with rfl | ⟨other, context, same, -, begins⟩
  · rw [failed]
    exact List.prefix_rfl
  · cases same.symm.trans failed
    exact begins

variable {setting : Setting} {backend : Backend}

theorem walk_grows (setting : Setting) (root : String) (limit : Nat)
    (pending : List (Status × Nat)) (progress : Progress) :
    progress.entries.toList <+:
      (reached (walk setting root limit pending progress)).entries.toList := by
  obtain ⟨met, -, entries, noted, -⟩ := walk_meets setting root limit pending progress
  exact ⟨entries, noted.symm⟩

theorem visitRoot_grows (setting : Setting) (root : String) (progress : Progress) :
    progress.entries.toList <+: (reached (visitRoot setting root progress)).entries.toList := by
  obtain ⟨entries, -, noted⟩ := visitRoot_notes setting root progress
  exact ⟨entries, noted.symm⟩

theorem visitRoots_grows (setting : Setting) (tag : String) (roots : List String)
    (progress : Progress) :
    progress.entries.toList <+:
      (reached (roots.foldlM (askAndVisit setting tag) progress)).entries.toList := by
  obtain ⟨entries, -, noted⟩ := visitRoots_notes setting tag roots progress
  exact ⟨entries, noted.symm⟩

theorem expand_sameUnlessLost (like : setting.backend.SameUnlessLost backend) (status : Status)
    (depth : Nat) (progress : Progress) :
    expand { setting with backend := backend } status depth progress =
        expand setting status depth progress ∨
      ∃ stopped context, expand setting status depth progress = .error stopped ∧
        stopped.cause = .lost context ∧ stopped.progress.entries = progress.entries := by
  have listedAlike : isListed { setting with backend := backend } status depth =
      isListed setting status depth := rfl
  unfold expand
  rw [listedAlike]
  cases isListed setting status depth with
  | false => exact .inl rfl
  | true =>
    rcases like.list status.path with same | ⟨context, lost⟩
    · exact .inl (by simp only [same])
    · simp only [lost]
      exact .inr ⟨_, context, rfl, rfl, warnAll_entries _ _⟩

theorem walk_foreruns (like : setting.backend.SameUnlessLost backend) (root : String) (limit : Nat)
    (pending : List (Status × Nat)) (progress : Progress) :
    Foreruns (walk setting root limit pending progress)
      (walk { setting with backend := backend } root limit pending progress) := by
  induction limit generalizing pending progress with
  | zero => cases pending <;> exact .inl rfl
  | succ limit ih =>
    cases pending with
    | nil => exact .inl rfl
    | cons place pending =>
      obtain ⟨status, depth⟩ := place
      rw [walk_cons, walk_cons]
      cases meet setting.credentials setting.cancel root status progress with
      | error stopped => exact .inl rfl
      | ok noted =>
        change Foreruns (expand setting status depth noted >>= _)
          (expand { setting with backend := backend } status depth noted >>= _)
        rcases expand_sameUnlessLost like status depth noted with
          same | ⟨stopped, context, lost, cause, kept⟩
        · rw [same]
          cases expand setting status depth noted with
          | error stopped => exact .inl rfl
          | ok grown => exact ih _ _
        · rw [lost]
          refine .inr ⟨stopped, context, rfl, cause, ?_⟩
          rw [kept]
          cases expanded : expand { setting with backend := backend } status depth noted with
          | error other => rw [← (expand_error expanded).2.2]; exact List.prefix_rfl
          | ok grown =>
            rw [← (expand_ok expanded).1]
            exact walk_grows _ root limit _ grown.2

theorem visitRoot_foreruns (like : setting.backend.SameUnlessLost backend) (root : String)
    (progress : Progress) :
    Foreruns (visitRoot setting root progress)
      (visitRoot { setting with backend := backend } root progress) := by
  cases normalizing : setting.backend.normalizeRoot root with
  | error cause =>
    have refused := (like.normalizeRoot root).trans normalizing
    rw [visitRoot_refused normalizing, visitRoot_refused refused]
    exact .inl rfl
  | ok normalized =>
    have normalizingOther := (like.normalizeRoot root).trans normalizing
    rcases like.stat normalized with same | ⟨context, lost⟩
    · rw [visitRoot_normalized normalizing, visitRoot_normalized normalizingOther, same]
      cases setting.backend.stat normalized with
      | ok status => exact walk_foreruns like _ _ _ _
      | error cause => cases cause <;> exact .inl rfl
    · rw [visitRoot_normalized normalizing, lost]
      exact .inr ⟨_, context, rfl, rfl, visitRoot_grows _ root progress⟩

theorem visitRoots_foreruns (like : setting.backend.SameUnlessLost backend) (tag : String)
    (roots : List String) :
    Foreruns (visitRoots setting tag roots)
      (visitRoots { setting with backend := backend } tag roots) := by
  unfold visitRoots
  generalize Progress.start = progress
  induction roots generalizing progress with
  | nil => exact .inl rfl
  | cons root rest ih =>
    rw [List.foldlM_cons, List.foldlM_cons]
    unfold askAndVisit
    cases progress.ask setting.cancel with
    | error stopped => exact .inl rfl
    | ok asked =>
      change Foreruns ((visitRoot setting root asked).mapError (locate root tag) >>= _)
        ((visitRoot { setting with backend := backend } root asked).mapError (locate root tag) >>= _)
      rcases visitRoot_foreruns like root asked with same | ⟨stopped, context, lost, cause, begins⟩
      · rw [same]
        cases visitRoot setting root asked with
        | error stopped => exact .inl rfl
        | ok after => exact ih after
      · rw [lost]
        refine .inr ⟨locate root tag stopped, context.located root tag, rfl, ?_, ?_⟩
        · simp only [locate, cause]
        · rw [locate_progress]
          refine begins.trans ?_
          cases visitRoot { setting with backend := backend } root asked with
          | error other =>
            change _ <+: (locate root tag other).progress.entries.toList
            rw [locate_progress]
            exact List.prefix_rfl
          | ok after => exact visitRoots_grows _ tag rest after

/-- A lost walk has just noted a directory, whose listing is lost. -/
theorem walk_lost {root : String} {limit : Nat} {pending : List (Status × Nat)}
    {progress : Progress} {stopped : Stopped} {context : Lost}
    (failed : walk setting root limit pending progress = .error stopped)
    (lost : stopped.cause = .lost context) :
    ∃ front last path, stopped.progress.entries.toList =
        progress.entries.toList ++ (front ++ [last]) ∧
      last.fullPath = .str path ∧ last.isFolder = .bool true ∧
      (setting.backend.list path).children = .error (.lost context) := by
  induction limit generalizing pending progress with
  | zero =>
    cases pending with
    | nil => cases failed
    | cons place pending =>
      cases failed
      cases lost
  | succ limit ih =>
    cases pending with
    | nil => cases failed
    | cons place pending =>
      obtain ⟨status, depth⟩ := place
      rcases Outcome.bind_error failed with failed | ⟨asked, asking, failed⟩
      · rw [(ask_error failed).1] at lost
        cases lost
      have same : asked.entries = progress.entries := by rw [ask_ok asking]
      rcases Outcome.bind_error failed with failed | ⟨entry, making, failed⟩
      · obtain ⟨cause, unmade, rfl⟩ := Outcome.mapError_error failed
        cases lost
        exact nomatch entryOf_fails root setting.credentials status _ unmade
      have made := Outcome.mapError_ok making
      rcases Outcome.bind_error failed with failed | ⟨⟨children, grown⟩, expanded, failed⟩
      · obtain ⟨-, size, basePath, -, shape⟩ := entryOf_ok made
        obtain ⟨directory, listing, kept⟩ := expand_error failed
        rw [lost] at listing
        refine ⟨[], entry, status.path, ?_, by rw [shape], by rw [shape, directory], listing⟩
        rw [kept, Progress.note, Array.toList_push, same]
        rfl
      · obtain ⟨front, last, path, noted, shown⟩ := ih failed
        refine ⟨entry :: front, last, path, ?_, shown⟩
        rw [noted, (expand_ok expanded).1, Progress.note, Array.toList_push, same]
        simp

theorem locate_lost {root tag : String} {stopped : Stopped} {context : Lost}
    (lost : (locate root tag stopped).cause = .lost context) :
    ∃ inner, stopped.cause = .lost inner ∧ context = inner.located root tag := by
  unfold locate at lost
  split at lost
  · rename_i inner cause
    cases lost
    exact ⟨inner, cause, rfl⟩
  · rename_i other
    exact absurd lost (other context)

/-- Where a local filesystem loses the walk from a root, after these entries of it: at the root
    itself, of which nothing is noted then; or at the listing of the directory noted last, by the
    directory or by one of its children. -/
inductive IsLostAt (fs : Filesystem) (root reason : String) : List Entry → Prop
  | root {node : Node}
      (found : fs.lookup (Path.absolute fs.directory (fs.normalizeRoot root)) = .ok node)
      (fault : node.statFault = some (.fatal reason)) : IsLostAt fs root reason []
  | listing {front : List Entry} {last : Entry} {path : String} {directory : Node}
      (shown : last.fullPath = .str path) (folder : last.isFolder = .bool true)
      (found : fs.lookup (Path.absolute fs.directory path) = .ok directory)
      (fault : directory.listFault = some (.fatal reason)) :
      IsLostAt fs root reason (front ++ [last])
  | child {front : List Entry} {last : Entry} {path : String} {directory child : Node}
      (shown : last.fullPath = .str path) (folder : last.isFolder = .bool true)
      (found : fs.lookup (Path.absolute fs.directory path) = .ok directory)
      (present : child ∈ fs.childrenOf directory)
      (fault : child.lstatFault = some (.fatal reason)) :
      IsLostAt fs root reason (front ++ [last])

theorem visitRoot_lost {fs : Filesystem} (local_ : setting.backend = fs.backend) {root : String}
    {progress : Progress} {stopped : Stopped} {context : Lost}
    (failed : visitRoot setting root progress = .error stopped)
    (lost : stopped.cause = .lost context) :
    ∃ reason walked, context = ⟨reason, none, none⟩ ∧
      stopped.progress.entries.toList = progress.entries.toList ++ walked ∧
      IsLostAt fs root reason walked := by
  rcases visitRoot_error failed with normalizing | ⟨normalized, normalizing, failed⟩
  · rw [local_] at normalizing
    cases normalizing
  rw [local_] at normalizing
  cases normalizing
  rcases failed with ⟨looking, kept⟩ | ⟨status, -, failed⟩
  · rw [local_, lost] at looking
    obtain ⟨node, reason, found, fault, rfl⟩ := Filesystem.stat_lost looking
    exact ⟨reason, [], rfl, by rw [kept, List.append_nil], .root found fault⟩
  · obtain ⟨front, last, path, noted, shown, folder, listing⟩ := walk_lost failed lost
    rw [local_] at listing
    obtain ⟨directory, reason, found, rfl, fault | ⟨child, present, fault⟩⟩ :=
      Filesystem.list_lost listing
    · exact ⟨reason, _, rfl, noted, .listing shown folder found fault⟩
    · exact ⟨reason, _, rfl, noted, .child shown folder found present fault⟩

theorem visitRoots_lost {fs : Filesystem} (local_ : setting.backend = fs.backend) {tag : String}
    {roots : List String} {stopped : Stopped} {context : Lost}
    (failed : visitRoots setting tag roots = .error stopped) (lost : stopped.cause = .lost context) :
    ∃ before root after middle reason walked, roots = before ++ root :: after ∧
      visitRoots setting tag before = .ok middle ∧ context = ⟨reason, some root, some tag⟩ ∧
      stopped.progress.entries.toList = middle.entries.toList ++ walked ∧
      IsLostAt fs root reason walked := by
  obtain ⟨before, root, after, middle, rfl, done, stuck⟩ := Outcome.foldlM_error failed
  rcases Outcome.bind_error stuck with stuck | ⟨asked, asking, stuck⟩
  · rw [(ask_error stuck).1] at lost
    cases lost
  obtain ⟨inner, visiting, rfl⟩ := Outcome.mapError_error stuck
  obtain ⟨unlocated, innerLost, rfl⟩ := locate_lost lost
  obtain ⟨reason, walked, rfl, noted, place⟩ := visitRoot_lost local_ visiting innerLost
  refine ⟨before, root, after, middle, reason, walked, rfl, done, rfl, ?_, place⟩
  rw [locate_progress, noted, ask_ok asking]

/-- However a harvest breaks off, a harvest of a filesystem that is the same but for faults which end every
    walk notes the same entries first. -/
theorem run_begins {surroundings : Surroundings} {other : Filesystem}
    (eased : surroundings.filesystem.EasedTo other) {uri : Json.Value} {given : Option Credentials}
    {roots : List String} {recursive : Bool} {cancel : Cancel} {stopped : Stopped}
    (failed : (run surroundings (.localFiles uri) given roots recursive cancel).result =
      .error stopped) :
    stopped.progress.entries.toList <+:
      (run { surroundings with filesystem := other } (.localFiles uri) given roots recursive
        cancel).noted := by
  rcases run_cases surroundings (.localFiles uri) given with
    ⟨credentials, backend, chosen, opened⟩ | ⟨cause, -, ended⟩
  · obtain rfl := openLocal_ok opened
    rw [run_opened chosen opened] at failed
    have stuck := Outcome.map_error failed
    have openedOther : (Connection.localFiles uri).openIn { surroundings with filesystem := other } =
        .ok other.backend := by
      change Connection.openLocal other uri = _
      rw [eased.beside.openLocal,
        show Connection.openLocal surroundings.filesystem uri = .ok _ from opened]
      rfl
    have limits : (Connection.localFiles uri).walkLimit { surroundings with filesystem := other } =
        (Connection.localFiles uri).walkLimit surroundings := eased.walkLimit
    rw [run_noted chosen openedOther, limits]
    -- The limit is a large power, which must not be computed.
    generalize (Connection.localFiles uri).walkLimit surroundings = limit at stuck ⊢
    let setting : Setting := ⟨surroundings.filesystem.backend, given.getD (.localFiles uri),
      recursive, cancel, limit⟩
    have like : setting.backend.SameUnlessLost other.backend := eased.backend
    exact (visitRoots_foreruns like "local" roots).begins stuck
  · rw [ended] at failed
    cases failed
    exact List.nil_prefix

theorem run_lost {surroundings : Surroundings} {uri : Json.Value} {given : Option Credentials}
    {roots : List String} {recursive : Bool} {cancel : Cancel} {stopped : Stopped} {context : Lost}
    (failed : (run surroundings (.localFiles uri) given roots recursive cancel).result =
      .error stopped) (lost : stopped.cause = .lost context) :
    ∃ before root after earlier reason walked, roots = before ++ root :: after ∧
      (run surroundings (.localFiles uri) given before recursive cancel).result = .ok earlier ∧
      context = ⟨reason, some root, some "local"⟩ ∧
      stopped.progress.entries.toList = earlier.entries ++ walked ∧
      IsLostAt surroundings.filesystem root reason walked := by
  rcases run_cases surroundings (.localFiles uri) given with
    ⟨credentials, backend, chosen, opened⟩ | ⟨cause, caused, ended⟩
  · obtain rfl := openLocal_ok opened
    rw [run_opened chosen opened] at failed
    obtain ⟨before, root, after, middle, reason, walked, split, done, named, noted, place⟩ :=
      visitRoots_lost rfl (Outcome.map_error failed) lost
    refine ⟨before, root, after, .ofProgress middle, reason, walked, split, ?_, named, noted, place⟩
    rw [run_opened chosen opened, done]
    rfl
  · rw [ended] at failed
    cases failed
    cases lost
    rcases caused with caused | caused
    · exact nomatch chooseCredentials_fails _ _ _ caused
    · exact nomatch Connection.openLocal_fails surroundings.filesystem uri _ caused

/-- A harvest of a local filesystem that is lost hands over what it has noted: all entries of the roots
    before the one it names, and those of this root up to the place where it is lost. They are a prefix
    of what a harvest notes of any filesystem that is the same but that some of the faults which end
    every walk are gone or are errors of the system. -/
theorem lostHarvest_hands_prefix (surroundings : Surroundings) (uri : Json.Value)
    (given : Option Credentials) (roots : List String) (recursive : Bool) (cancel : Cancel)
    {stopped : Stopped} {context : Lost}
    (failed : (run surroundings (.localFiles uri) given roots recursive cancel).result =
      .error stopped) (lost : stopped.cause = .lost context) :
    let fs := surroundings.filesystem
    (∃ before root after earlier reason walked, roots = before ++ root :: after ∧
      (run surroundings (.localFiles uri) given before recursive cancel).result = .ok earlier ∧
      context = ⟨reason, some root, some "local"⟩ ∧
      stopped.progress.entries.toList = earlier.entries ++ walked ∧
      IsLostAt fs root reason walked) ∧
    ∀ other, fs.EasedTo other →
      stopped.progress.entries.toList <+:
        (run { surroundings with filesystem := other } (.localFiles uri) given roots recursive
          cancel).noted := by
  intro fs
  constructor
  · exact run_lost failed lost
  · intro other eased
    exact run_begins eased failed

-- The child `b` of the top cannot be looked at: here the handle goes stale, in `linkedFilesystem`
-- there is an error of the system.
def staleFilesystem : Filesystem :=
  { linkedFilesystem with
    nodes :=
      [linkedTop, linkedNode "/b" 0o100644 none (some (.fatal "Stale file handle")),
        linkedNode "/l" 0o120777 (some "/") none] }

def staleSurroundings : Surroundings := { linkedSurroundings with filesystem := staleFilesystem }

theorem stale_easedTo : staleFilesystem.EasedTo linkedFilesystem := by
  refine ⟨rfl, .cons ?_ (.cons ?_ (.cons ?_ .nil))⟩
  · exact ⟨rfl, .same _, .same _, .same _⟩
  · exact ⟨rfl, .same _, .system _ _ _, .same _⟩
  · exact ⟨rfl, .same _, .same _, .same _⟩

theorem stale_isLost : ∃ stopped,
    (run staleSurroundings (.localFiles (.str "file:///")) none ["/"] true .never).result =
      .error stopped ∧
    stopped.cause = .lost ⟨"Stale file handle", some "/", some "local"⟩ ∧
    stopped.progress.entries.size = 1 := by
  have ended : (match (run staleSurroundings (.localFiles (.str "file:///")) none ["/"] true
      .never).result with
    | .error stopped =>
      decide (stopped.cause = .lost ⟨"Stale file handle", some "/", some "local"⟩ ∧
        stopped.progress.entries.size = 1)
    | .ok _ => false) = true := by decide +kernel
  split at ended
  · rename_i stopped failed
    exact ⟨stopped, failed, of_decide_eq_true ended⟩
  · cases ended

theorem lostHarvest_hands_prefix_stale : ∃ stopped,
    (run staleSurroundings (.localFiles (.str "file:///")) none ["/"] true .never).result =
      .error stopped ∧
    stopped.cause = .lost ⟨"Stale file handle", some "/", some "local"⟩ ∧
    stopped.progress.entries.size = 1 ∧ staleFilesystem.EasedTo linkedFilesystem ∧
    stopped.progress.entries.toList <+:
      (run linkedSurroundings (.localFiles (.str "file:///")) none ["/"] true .never).noted := by
  obtain ⟨stopped, failed, lost, one⟩ := stale_isLost
  obtain ⟨-, begins⟩ := lostHarvest_hands_prefix staleSurroundings (.str "file:///") none ["/"] true
    .never failed lost
  exact ⟨stopped, failed, lost, one, stale_easedTo, begins linkedFilesystem stale_easedTo⟩

end HarvestPlan.Harvest
