import HarvestPlan.Proofs.Harvest.Noted
import HarvestPlan.Proofs.Harvest.Through

/-!
How often a harvest asks whether it is to be given up, and what becomes of it when the answer changes. It
asks once for each root and once for each entry; nothing but the answers can tell two harvests of the
same roots apart.
-/
namespace HarvestPlan.Harvest

/-- A run that is never given up, and the same run with `cancel`, both from where it has been asked
    `first` times: they are the same if it is quiet while the former is asked, else the latter is
    cancelled. -/
structure Cuts (cancel : Cancel) (first : Nat) (free cut : Except Stopped Progress) : Prop where
  onward : first ≤ (reached free).asked
  quiet : IsQuiet cancel first (reached free).asked → cut = free
  givenUp : ¬IsQuiet cancel first (reached free).asked →
    ∃ stopped, cut = .error stopped ∧ stopped.cause = .cancelled

namespace Cuts

variable {cancel : Cancel} {first : Nat} {free cut : Except Stopped Progress}

theorem still {result : Except Stopped Progress} (same : (reached result).asked = first) :
    Cuts cancel first result result where
  onward := Nat.le_of_eq same.symm
  quiet _ := rfl
  givenUp loud := by
    rw [same] at loud
    exact absurd (fun asked from_ below => by omega) loud

theorem bind {next nextCut : Progress → Except Stopped Progress} (start : Cuts cancel first free cut)
    (go : ∀ progress, Cuts cancel progress.asked (next progress) (nextCut progress)) :
    Cuts cancel first (free >>= next) (cut >>= nextCut) := by
  cases free with
  | error stopped =>
    refine ⟨start.onward, fun quiet => by rw [start.quiet quiet]; rfl, fun loud => ?_⟩
    obtain ⟨cancelled, same, cause⟩ := start.givenUp loud
    exact ⟨cancelled, by rw [same]; rfl, cause⟩
  | ok progress =>
    have onward : first ≤ progress.asked := start.onward
    have split : IsQuiet cancel first (reached (next progress)).asked ↔
        IsQuiet cancel first progress.asked ∧
          IsQuiet cancel progress.asked (reached (next progress)).asked :=
      isQuiet_append onward (go progress).onward
    refine ⟨Nat.le_trans onward (go progress).onward, fun quiet => ?_, fun loud => ?_⟩
    · obtain ⟨early, late⟩ := split.mp quiet
      rw [start.quiet early]
      exact (go progress).quiet late
    · by_cases early : IsQuiet cancel first progress.asked
      · rw [start.quiet early]
        exact (go progress).givenUp fun late => loud (split.mpr ⟨early, late⟩)
      · obtain ⟨cancelled, same, cause⟩ := start.givenUp early
        exact ⟨cancelled, by rw [same]; rfl, cause⟩

theorem located (cuts : Cuts cancel first free cut) (root tag : String) :
    Cuts cancel first (free.mapError (locate root tag)) (cut.mapError (locate root tag)) := by
  have asked : (reached (free.mapError (locate root tag))).asked = (reached free).asked := by
    cases free with
    | ok progress => rfl
    | error stopped =>
      change (locate root tag stopped).progress.asked = _
      rw [locate_progress]
      rfl
  constructor
  · rw [asked]
    exact cuts.onward
  · rw [asked]
    intro quiet
    rw [cuts.quiet quiet]
  · rw [asked]
    intro loud
    obtain ⟨stopped, same, cause⟩ := cuts.givenUp loud
    refine ⟨stopped, ?_, cause⟩
    rw [same, Outcome.error_mapError, locate, cause]

end Cuts

theorem ask_cuts (cancel : Cancel) (progress : Progress) :
    Cuts cancel progress.asked (progress.ask .never) (progress.ask cancel) := by
  have free : progress.ask .never = .ok { progress with asked := progress.asked + 1 } := rfl
  rw [free]
  constructor
  · exact Nat.le_succ _
  · intro quiet
    have unset : cancel.isSet progress.asked = false := isQuiet_succ.mp quiet
    simp [Progress.ask, unset]
  · intro loud
    have set : cancel.isSet progress.asked = true := by simpa using mt isQuiet_succ.mpr loud
    refine ⟨⟨.cancelled, { progress with asked := progress.asked + 1 }⟩, ?_, rfl⟩
    simp [Progress.ask, set]

theorem meet_cuts (credentials : Credentials) (cancel : Cancel) (root : String) (status : Status)
    (progress : Progress) :
    Cuts cancel progress.asked (meet credentials .never root status progress)
      (meet credentials cancel root status progress) := by
  refine (ask_cuts cancel progress).bind fun asked => .still ?_
  cases entryOf root credentials status <;> rfl

theorem expand_asked (setting : Setting) (status : Status) (depth : Nat) (progress : Progress) :
    (∀ children grown, expand setting status depth progress = .ok (children, grown) →
      grown.asked = progress.asked) ∧
    ∀ stopped, expand setting status depth progress = .error stopped →
      stopped.progress.asked = progress.asked := by
  unfold expand
  split
  · exact ⟨fun children grown same => by cases same; rfl, nofun⟩
  · simp only
    split
    · exact ⟨fun children grown same => by cases same; exact warnAll_asked _ _, nofun⟩
    · exact ⟨fun children grown same => by cases same; exact warnAll_asked _ _, nofun⟩
    · exact ⟨nofun, fun stopped same => by cases same; exact warnAll_asked _ _⟩

variable (setting : Setting) (cancel : Cancel)

theorem walk_cuts (root : String) (limit : Nat) (pending : List (Status × Nat))
    (progress : Progress) :
    Cuts cancel progress.asked
      (walk { setting with cancel := .never } root limit pending progress)
      (walk { setting with cancel := cancel } root limit pending progress) := by
  induction limit generalizing pending progress with
  | zero => cases pending <;> exact .still rfl
  | succ limit ih =>
    cases pending with
    | nil => exact .still rfl
    | cons place pending =>
      obtain ⟨status, depth⟩ := place
      rw [walk_cons, walk_cons]
      refine (meet_cuts setting.credentials cancel root status progress).bind fun noted => ?_
      change Cuts cancel noted.asked (expand setting status depth noted >>= _)
        (expand setting status depth noted >>= _)
      obtain ⟨askedOk, askedError⟩ := expand_asked setting status depth noted
      cases expanded : expand setting status depth noted with
      | error stopped => exact .still (askedError stopped expanded)
      | ok grown =>
        obtain ⟨children, grown⟩ := grown
        rw [← askedOk children grown expanded]
        exact ih (children ++ pending) grown

theorem visitRoot_cuts (root : String) (progress : Progress) :
    Cuts cancel progress.asked (visitRoot { setting with cancel := .never } root progress)
      (visitRoot { setting with cancel := cancel } root progress) := by
  cases normalizing : setting.backend.normalizeRoot root with
  | error cause =>
    have refused (answer : Cancel) :=
      @visitRoot_refused { setting with cancel := answer } root cause normalizing progress
    rw [refused, refused]
    exact .still rfl
  | ok normalized =>
    have seen (answer : Cancel) :=
      @visitRoot_normalized { setting with cancel := answer } root normalized normalizing progress
    rw [seen, seen]
    cases setting.backend.stat normalized with
    | ok status => exact walk_cuts setting cancel _ _ _ progress
    | error cause => cases cause <;> exact .still rfl

theorem visitRoots_cuts (tag : String) (roots : List String) :
    Cuts cancel 0 (visitRoots { setting with cancel := .never } tag roots)
      (visitRoots { setting with cancel := cancel } tag roots) := by
  have each : ∀ progress, Cuts cancel progress.asked
      (roots.foldlM (askAndVisit { setting with cancel := .never } tag) progress)
      (roots.foldlM (askAndVisit { setting with cancel := cancel } tag) progress) := by
    induction roots with
    | nil => exact fun progress => .still rfl
    | cons root rest ih =>
      intro progress
      rw [List.foldlM_cons, List.foldlM_cons]
      refine Cuts.bind ?_ ih
      exact (ask_cuts cancel progress).bind fun asked =>
        (visitRoot_cuts setting cancel root asked).located root tag
  exact each .start

variable {setting} {cancel}

theorem meet_counts {root : String} {status : Status} {credentials : Credentials}
    {progress after : Progress} (met : meet credentials cancel root status progress = .ok after) :
    after.asked = progress.asked + 1 ∧ after.entries.size = progress.entries.size + 1 := by
  refine ⟨(meet_asked met).1, ?_⟩
  obtain ⟨asked, asking, met⟩ := Outcome.bind_ok met
  obtain ⟨entry, -, met⟩ := Outcome.bind_ok met
  cases met
  simp [Progress.note, ask_ok asking]

/-- A walk asks once for each entry that it notes. -/
theorem walk_counts {root : String} {limit : Nat} {pending : List (Status × Nat)}
    {progress after : Progress} (walked : walk setting root limit pending progress = .ok after) :
    after.asked + progress.entries.size = progress.asked + after.entries.size := by
  induction limit generalizing pending progress with
  | zero =>
    cases pending with
    | nil =>
      cases walked
      rfl
    | cons place pending => cases walked
  | succ limit ih =>
    cases pending with
    | nil =>
      cases walked
      rfl
    | cons place pending =>
      obtain ⟨status, depth⟩ := place
      rw [walk_cons] at walked
      obtain ⟨noted, met, walked⟩ := Outcome.bind_ok walked
      obtain ⟨⟨children, grown⟩, expanded, walked⟩ := Outcome.bind_ok walked
      obtain ⟨asked, entries⟩ := meet_counts met
      have keptAsked := (expand_asked setting status depth noted).1 children grown expanded
      have keptEntries := congrArg Array.size (expand_ok expanded).1
      have later := ih walked
      omega

theorem visitRoot_counts {root : String} {progress after : Progress}
    (visited : visitRoot setting root progress = .ok after) :
    after.asked + progress.entries.size = progress.asked + after.entries.size := by
  obtain ⟨normalized, -, visited⟩ := Outcome.bind_ok visited
  split at visited
  · exact walk_counts visited
  · cases visited
    rfl
  · cases visited

theorem visitRoots_counts {tag : String} {roots : List String} {done : Progress}
    (walked : visitRoots setting tag roots = .ok done) :
    done.asked = roots.length + done.entries.size := by
  have each : ∀ (roots : List String) {progress : Progress},
      roots.foldlM (askAndVisit setting tag) progress = .ok done →
      done.asked + progress.entries.size = progress.asked + roots.length + done.entries.size := by
    intro roots
    induction roots with
    | nil =>
      intro progress walked
      cases walked
      rfl
    | cons root rest ih =>
      intro progress walked
      rw [List.foldlM_cons] at walked
      obtain ⟨after, visited, walked⟩ := Outcome.bind_ok walked
      obtain ⟨asked, asking, visited⟩ := Outcome.bind_ok visited
      have here := visitRoot_counts (Outcome.mapError_ok visited)
      have later := ih walked
      rw [ask_ok asking] at here
      simp only [List.length_cons] at here ⊢
      omega
  simpa [Progress.start] using each roots walked

theorem isQuiet_after {n last : Nat} : IsQuiet (.after n) 0 last ↔ last ≤ n := by
  simp only [IsQuiet, Cancel.after, decide_eq_false_iff_not]
  constructor
  · intro quiet
    by_contra more
    exact quiet n (Nat.zero_le n) (by omega) (Nat.le_refl n)
  · intro few asked _ below
    omega

/-- A harvest that asks so many times is the same if it is given up when it does not ask any more, and
    is cancelled if it is given up before. -/
structure AsksExactly {α : Type} (harvest : Cancel → Except Stopped α) (asked : Nat) : Prop where
  same : ∀ n, asked ≤ n → harvest (.after n) = harvest .never
  cancelled : ∀ n, n < asked →
    ∃ stopped, harvest (.after n) = .error stopped ∧ stopped.cause = .cancelled

theorem visitRoots_asksExactly (setting : Setting) (tag : String) (roots : List String) :
    AsksExactly (fun cancel => visitRoots { setting with cancel := cancel } tag roots)
      (reached (visitRoots { setting with cancel := .never } tag roots)).asked where
  same n most := (visitRoots_cuts setting (.after n) tag roots).quiet (isQuiet_after.mpr most)
  cancelled n fewer := by
    refine (visitRoots_cuts setting (.after n) tag roots).givenUp fun quiet => ?_
    have most := isQuiet_after.mp quiet
    omega

theorem AsksExactly.map {α β : Type} {harvest : Cancel → Except Stopped α} {asked : Nat}
    (exactly : AsksExactly harvest asked) (f : α → β) :
    AsksExactly (fun cancel => f <$> harvest cancel) asked where
  same n most := by rw [exactly.same n most]
  cancelled n fewer := by
    obtain ⟨stopped, failed, cause⟩ := exactly.cancelled n fewer
    exact ⟨stopped, by rw [failed]; rfl, cause⟩

theorem run_asksExactly (surroundings : Surroundings) (connection : Connection)
    (given : Option Credentials) (roots : List String) (recursive : Bool) :
    ∃ asked, (∀ result,
        (run surroundings connection given roots recursive .never).result = .ok result →
          asked = roots.length + result.entries.length) ∧
      (∀ stopped, (run surroundings connection given roots recursive .never).result =
        .error stopped → asked = stopped.progress.asked) ∧
      AsksExactly (fun cancel => (run surroundings connection given roots recursive cancel).result)
        asked := by
  rcases run_cases surroundings connection given with
    ⟨credentials, backend, chosen, opened⟩ | ⟨cause, -, ended⟩
  · let setting : Setting := ⟨backend, given.getD connection.credentials, recursive, .never,
      connection.walkLimit surroundings⟩
    let tag := connection.backendType.tag
    have same : ∀ cancel, (run surroundings connection given roots recursive cancel).result =
        HarvestResult.ofProgress <$> visitRoots { setting with cancel := cancel } tag roots :=
      fun cancel => run_opened chosen opened roots recursive cancel
    simp only [same]
    refine ⟨_, ?_, ?_, (visitRoots_asksExactly setting tag roots).map _⟩
    · intro result went
      obtain ⟨done, walked, rfl⟩ := Outcome.map_ok went
      rw [walked]
      exact visitRoots_counts walked
    · intro stopped failed
      rw [Outcome.map_error failed]
      rfl
  · simp only [ended]
    refine ⟨0, nofun, ?_, fun n _ => rfl, fun n fewer => absurd fewer (Nat.not_lt_zero n)⟩
    rintro stopped ⟨⟩
    rfl

/-- Any harvest asks whether it is to be given up once for each root and once for each entry, if it goes
    through. Given up after some number of times, it is exactly the harvest that is never given up if
    this is asked no more often, and is cancelled if it is. This holds of every storage. -/
theorem harvest_asks_exactly (roots : List String) (recursive : Bool) :
    (∀ backend credentials limit tag,
      let harvest := fun cancel =>
        visitRoots ⟨backend, credentials, recursive, cancel, limit⟩ tag roots
      let asked := (reached (harvest .never)).asked
      (∀ done, harvest .never = .ok done → asked = roots.length + done.entries.size) ∧
        AsksExactly harvest asked) ∧
    ∀ surroundings connection given,
      let harvest := fun cancel => (run surroundings connection given roots recursive cancel).result
      ∃ asked, (∀ result, harvest .never = .ok result →
          asked = roots.length + result.entries.length) ∧
        (∀ stopped, harvest .never = .error stopped → asked = stopped.progress.asked) ∧
        AsksExactly harvest asked := by
  constructor
  · intro backend credentials limit tag harvest asked
    constructor
    · intro done walked
      rw [show asked = done.asked by simp only [asked, walked, reached]]
      exact visitRoots_counts walked
    · exact visitRoots_asksExactly ⟨backend, credentials, recursive, .never, limit⟩ tag roots
  · intro surroundings connection given
    exact run_asksExactly surroundings connection given roots recursive

end HarvestPlan.Harvest
