import Mathlib.Data.List.Forall2
import HarvestPlan.Proofs.Harvest.Opened
import HarvestPlan.Proofs.Outcome

namespace HarvestPlan.Harvest

def reached : Except Stopped Progress → Progress
  | .ok progress => progress
  | .error stopped => stopped.progress

def Opens (setting : Setting) (status : Status) (children : List Status) : Prop :=
  children = [] ∨
    status.isDirectory = true ∧ (setting.backend.list status.path).children = .ok children

/-- A walk over pending nodes may have met these statuses when it ends or is broken off. -/
inductive Meets (setting : Setting) : List Status → List Status → Prop
  | stop (pending : List Status) : Meets setting pending []
  | step {status : Status} {pending children met : List Status}
      (opens : Opens setting status children) (further : Meets setting (children ++ pending) met) :
      Meets setting (status :: pending) (status :: met)

/-- What holds of the pending nodes and is handed down to children holds of all that is met. -/
theorem Meets.all {setting : Setting} {Holds : Status → Prop}
    (handed : ∀ {status children}, Holds status → Opens setting status children →
      ∀ child ∈ children, Holds child)
    {pending met : List Status} (meets : Meets setting pending met)
    (holds : ∀ status ∈ pending, Holds status) : ∀ status ∈ met, Holds status := by
  induction meets with
  | stop pending => simp
  | @step status pending children met opens _ ih =>
    have own : Holds status := holds status (by simp)
    have below : ∀ other ∈ children ++ pending, Holds other := by
      intro other present
      rcases List.mem_append.mp present with present | present
      · exact handed own opens other present
      · exact holds other (List.mem_cons_of_mem _ present)
    intro other present
    rcases List.mem_cons.mp present with rfl | present
    · exact own
    · exact ih below other present

def Apart {α : Type} (way other : List α) : Prop := ¬way <+: other ∧ ¬other <+: way

theorem Apart.further {α : Type} {way other : List α} (apart : Apart way other) (last : α) :
    Apart (way ++ [last]) other := by
  constructor
  · intro leads
    exact apart.1 ((List.prefix_append way [last]).trans leads)
  · intro leads
    rcases List.prefix_concat_iff.mp leads with same | leads
    · exact apart.1 (same ▸ List.prefix_append way [last])
    · exact apart.2 leads

theorem apart_siblings {α : Type} {way : List α} {last other : α} (different : last ≠ other) :
    Apart (way ++ [last]) (way ++ [other]) := by
  simp only [Apart, List.prefix_append_right_inj, List.cons_prefix_cons, List.nil_prefix, and_true]
  exact ⟨different, different.symm⟩

/-- The ways of what is met lead on from pending nodes, and no two of them are the same. -/
theorem Meets.ways {α : Type} {setting : Setting} {Holds : Status → Prop} {way : Status → List α}
    (handed : ∀ {status children}, Holds status → Opens setting status children →
      (∀ child ∈ children, Holds child ∧ ∃ last, way child = way status ++ [last]) ∧
        (children.map way).Nodup)
    {pending met : List Status} (meets : Meets setting pending met)
    (holds : ∀ status ∈ pending, Holds status)
    (apart : pending.Pairwise fun status other => Apart (way status) (way other)) :
    (∀ status ∈ met, ∃ start ∈ pending, way start <+: way status) ∧ (met.map way).Nodup := by
  induction meets with
  | stop pending => simp
  | @step status pending children met opens _ ih =>
    obtain ⟨own, holdsRest⟩ := List.forall_mem_cons.mp holds
    obtain ⟨ownApart, restApart⟩ := List.pairwise_cons.mp apart
    obtain ⟨below, distinct⟩ := handed own opens
    have siblings : children.Pairwise fun child other => Apart (way child) (way other) := by
      refine (List.pairwise_map.mp distinct).imp_of_mem ?_
      intro child other present otherPresent different
      obtain ⟨-, last, shape⟩ := below child present
      obtain ⟨-, otherLast, otherShape⟩ := below other otherPresent
      rw [shape, otherShape] at different ⊢
      exact apart_siblings fun same => different (by rw [same])
    have across : ∀ child ∈ children, ∀ other ∈ pending, Apart (way child) (way other) := by
      intro child present other otherPresent
      obtain ⟨-, last, shape⟩ := below child present
      rw [shape]
      exact (ownApart other otherPresent).further last
    obtain ⟨led, once⟩ := ih
      (List.forall_mem_append.mpr ⟨fun child present => (below child present).1, holdsRest⟩)
      (List.pairwise_append.mpr ⟨siblings, restApart, across⟩)
    -- What is met after the status has a longer way than its own, or leads on from a pending node.
    have later : ∀ other ∈ met, (∃ last, way status ++ [last] <+: way other) ∨
        ∃ start ∈ pending, way start <+: way other := by
      intro other present
      obtain ⟨start, held, leads⟩ := led other present
      rcases List.mem_append.mp held with held | held
      · obtain ⟨-, last, shape⟩ := below start held
        exact .inl ⟨last, shape ▸ leads⟩
      · exact .inr ⟨start, held, leads⟩
    constructor
    · intro other present
      rcases List.mem_cons.mp present with rfl | present
      · exact ⟨other, by simp, List.prefix_rfl⟩
      · rcases later other present with ⟨last, leads⟩ | ⟨start, held, leads⟩
        · exact ⟨status, by simp, (List.prefix_append _ _).trans leads⟩
        · exact ⟨start, List.mem_cons_of_mem _ held, leads⟩
    · rw [List.map_cons, List.nodup_cons]
      refine ⟨fun again => ?_, once⟩
      obtain ⟨other, present, same⟩ := List.mem_map.mp again
      rcases later other present with ⟨last, leads⟩ | ⟨start, held, leads⟩
      · have longer := leads.length_le
        rw [same, List.length_append, List.length_singleton] at longer
        omega
      · exact (ownApart start held).2 (same ▸ leads)

def Notes (credentials : Credentials) (root : String) (before after : Progress)
    (met : List Status) : Prop :=
  ∃ entries, after.entries.toList = before.entries.toList ++ entries ∧
    met.Forall₂ (fun status entry => entryOf root credentials status = .ok entry) entries

theorem Notes.refl {credentials : Credentials} {root : String} {before after : Progress}
    (same : after.entries = before.entries) : Notes credentials root before after [] :=
  ⟨[], by simp [same], .nil⟩

theorem Notes.note {credentials : Credentials} {root : String} {before middle after : Progress}
    {status : Status} {entry : Entry} (made : entryOf root credentials status = .ok entry)
    (same : middle.entries = before.entries.push entry) {met : List Status}
    (rest : Notes credentials root middle after met) :
    Notes credentials root before after (status :: met) := by
  obtain ⟨entries, noted, each⟩ := rest
  exact ⟨entry :: entries, by simp [noted, same], .cons made each⟩

theorem ask_error {cancel : Cancel} {progress : Progress} {stopped : Stopped}
    (failed : progress.ask cancel = .error stopped) :
    stopped.cause = .cancelled ∧ stopped.progress.entries = progress.entries := by
  unfold Progress.ask at failed
  simp only at failed
  split at failed
  · cases failed
    exact ⟨rfl, rfl⟩
  · cases failed

theorem warn_entries (progress : Progress) (kind : WarningKind) (path text : String) :
    (progress.warn kind path text).entries = progress.entries := rfl

theorem warnAll_entries (progress : Progress) (failed : List (String × String)) :
    (progress.warnAll failed).entries = progress.entries := by
  induction failed generalizing progress with
  | nil => rfl
  | cons failure rest ih => exact (ih _).trans (warn_entries _ _ _ _)

theorem isDirectory_of_isListed {setting : Setting} {status : Status} {depth : Nat}
    (listed : isListed setting status depth = true) : status.isDirectory = true := by
  rw [isListed, Bool.and_eq_true] at listed
  exact listed.1

theorem expand_ok {setting : Setting} {status : Status} {depth : Nat} {progress grown : Progress}
    {children : List (Status × Nat)}
    (expanded : expand setting status depth progress = .ok (children, grown)) :
    grown.entries = progress.entries ∧ Opens setting status (children.map (·.1)) := by
  unfold expand at expanded
  split at expanded
  · cases expanded
    exact ⟨rfl, .inl rfl⟩
  · rename_i listed
    simp only at expanded
    split at expanded
    · rename_i shown
      cases expanded
      have directory := isDirectory_of_isListed (by simpa using listed)
      exact ⟨warnAll_entries _ _, .inr ⟨directory, by simp [shown, Function.comp_def]⟩⟩
    · cases expanded
      exact ⟨warnAll_entries _ _, .inl rfl⟩
    · cases expanded

theorem expand_error {setting : Setting} {status : Status} {depth : Nat} {progress : Progress}
    {stopped : Stopped} (failed : expand setting status depth progress = .error stopped) :
    status.isDirectory = true ∧
      (setting.backend.list status.path).children = .error stopped.cause ∧
      stopped.progress.entries = progress.entries := by
  unfold expand at failed
  split at failed
  · cases failed
  · rename_i listed
    simp only at failed
    split at failed
    · cases failed
    · cases failed
    · rename_i cause _ listing
      cases failed
      have directory := isDirectory_of_isListed (by simpa using listed)
      exact ⟨directory, listing, warnAll_entries _ _⟩

def IsCauseIn (setting : Setting) (root : String) (Holds : Status → Prop) (cause : Failure) : Prop :=
  cause = .cancelled ∨ cause = .unfinished ∨
    (∃ path, (setting.backend.list path).children = .error cause) ∨
    ∃ status, Holds status ∧ entryOf root setting.credentials status = .error cause

theorem walk_meets (setting : Setting) (root : String) (limit : Nat)
    (pending : List (Status × Nat)) (progress : Progress) :
    ∃ met, Meets setting (pending.map (·.1)) met ∧
      Notes setting.credentials root progress
        (reached (walk setting root limit pending progress)) met := by
  induction limit generalizing pending progress with
  | zero => cases pending <;> exact ⟨[], .stop _, .refl rfl⟩
  | succ limit ih =>
    cases pending with
    | nil => exact ⟨[], .stop _, .refl rfl⟩
    | cons node rest =>
      obtain ⟨status, depth⟩ := node
      cases asking : progress.ask setting.cancel with
      | error stopped =>
        have same : reached (walk setting root (limit + 1) ((status, depth) :: rest) progress) =
            stopped.progress := by
          simp [walk, asking, bind, Except.bind, reached]
        exact ⟨[], .stop _, by rw [same]; exact .refl (ask_error asking).2⟩
      | ok asked =>
        have entries : asked.entries = progress.entries := by rw [ask_ok asking]
        cases made : entryOf root setting.credentials status with
        | error cause =>
          have same : reached (walk setting root (limit + 1) ((status, depth) :: rest) progress) =
              asked := by
            simp [walk, asking, made, stopAt, Outcome.error_mapError, bind, Except.bind, reached]
          exact ⟨[], .stop _, by rw [same]; exact .refl entries⟩
        | ok entry =>
          have pushed : (asked.note entry).entries = progress.entries.push entry := by
            simp [Progress.note, entries]
          cases expanded : expand setting status depth (asked.note entry) with
          | error stopped =>
            have same : reached (walk setting root (limit + 1) ((status, depth) :: rest) progress) =
                stopped.progress := by
              simp [walk, asking, made, stopAt, Outcome.ok_mapError, expanded, bind, Except.bind,
                reached]
            refine ⟨[status], .step (.inl rfl) (.stop _), ?_⟩
            rw [same]
            exact .note made pushed (.refl (expand_error expanded).2.2)
          | ok grown =>
            obtain ⟨children, grown⟩ := grown
            obtain ⟨kept, opens⟩ := expand_ok expanded
            have same : walk setting root (limit + 1) ((status, depth) :: rest) progress =
                walk setting root limit (children ++ rest) grown := by
              simp [walk, asking, made, stopAt, Outcome.ok_mapError, expanded, bind, Except.bind]
            obtain ⟨met, meets, notes⟩ := ih (children ++ rest) grown
            rw [List.map_append] at meets
            refine ⟨status :: met, .step opens meets, ?_⟩
            rw [same]
            exact .note made (kept.trans pushed) notes

theorem walk_error {setting : Setting} {root : String} {Holds : Status → Prop}
    (handed : ∀ {status children}, Holds status → Opens setting status children →
      ∀ child ∈ children, Holds child)
    {limit : Nat} {pending : List (Status × Nat)} (holds : ∀ node ∈ pending, Holds node.1)
    {progress : Progress} {stopped : Stopped}
    (failed : walk setting root limit pending progress = .error stopped) :
    IsCauseIn setting root Holds stopped.cause := by
  induction limit generalizing pending progress with
  | zero =>
    cases pending with
    | nil => cases failed
    | cons node rest =>
      cases failed
      exact .inr (.inl rfl)
  | succ limit ih =>
    cases pending with
    | nil => cases failed
    | cons node rest =>
      obtain ⟨status, depth⟩ := node
      have own : Holds status := holds (status, depth) (by simp)
      rcases Outcome.bind_error failed with failed | ⟨asked, -, failed⟩
      · exact .inl (ask_error failed).1
      rcases Outcome.bind_error failed with failed | ⟨entry, -, failed⟩
      · obtain ⟨cause, unmade, rfl⟩ := Outcome.mapError_error failed
        exact .inr (.inr (.inr ⟨status, own, unmade⟩))
      rcases Outcome.bind_error failed with failed | ⟨⟨children, grown⟩, expanded, failed⟩
      · exact .inr (.inr (.inl ⟨_, (expand_error failed).2.1⟩))
      · refine ih ?_ failed
        intro node present
        rcases List.mem_append.mp present with present | present
        · exact handed own (expand_ok expanded).2 node.1 (List.mem_map_of_mem present)
        · exact holds node (List.mem_cons_of_mem _ present)

end HarvestPlan.Harvest
