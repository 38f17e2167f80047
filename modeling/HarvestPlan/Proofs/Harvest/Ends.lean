import HarvestPlan.Proofs.Harvest.Causes
import HarvestPlan.Proofs.Harvest.Meeting
import HarvestPlan.Proofs.Harvest.Preorder

namespace HarvestPlan

namespace Harvest

theorem ask_ends {cancel : Cancel} {progress : Progress} {stopped : Stopped}
    (failed : progress.ask cancel = .error stopped) : stopped.cause ≠ .unfinished := by
  rw [(ask_error failed).1]
  exact nofun

theorem meet_ends {credentials : Credentials} {cancel : Cancel} {root : String} {status : Status}
    {progress : Progress} {stopped : Stopped}
    (failed : meet credentials cancel root status progress = .error stopped) :
    stopped.cause ≠ .unfinished := by
  unfold meet at failed
  rcases Outcome.bind_error failed with failed | ⟨asked, -, failed⟩
  · exact ask_ends failed
  rcases Outcome.bind_error failed with failed | ⟨entry, -, failed⟩
  · obtain ⟨cause, known, rfl⟩ := Outcome.mapError_error failed
    rintro rfl
    exact nomatch entryOf_fails root credentials status _ known
  · cases failed

theorem visit_ends {backend : Backend}
    (fails : ∀ path, FailsBy Failure.IsOfStorage (backend.list path).children)
    {credentials : Credentials} {cancel : Cancel} {root : String} {tree : Tree}
    (shown : tree.IsOf backend) {progress : Progress} {stopped : Stopped}
    (failed : visit credentials cancel root tree progress = .error stopped) :
    stopped.cause ≠ .unfinished := by
  induction shown generalizing progress stopped with
  | file plain =>
    simp only [visit] at failed
    exact meet_ends failed
  | @unlisted status missed cause directory listing =>
    simp only [visit] at failed
    rcases Outcome.bind_error failed with failed | ⟨noted, -, failed⟩
    · exact meet_ends failed
    · have listed := fails status.path cause (by rw [listing])
      unfold giveUp at failed
      split at failed
      · cases failed
      · cases failed
        rintro rfl
        cases listed
  | @folder status missed children directory listing below ih =>
    have rest : ∀ trees, (∀ tree ∈ trees, tree ∈ children) → ∀ progress stopped,
        visitAll credentials cancel root trees progress = .error stopped →
        stopped.cause ≠ .unfinished := by
      intro trees
      induction trees with
      | nil => exact fun _ progress stopped failed => nomatch failed
      | cons tree others within =>
        intro held progress stopped failed
        simp only [visitAll] at failed
        rcases Outcome.bind_error failed with failed | ⟨reached, -, failed⟩
        · exact ih tree (held tree (by simp)) failed
        · exact within (fun other present => held other (List.mem_cons_of_mem _ present)) _ _ failed
    simp only [visit] at failed
    rcases Outcome.bind_error failed with failed | ⟨noted, -, failed⟩
    · exact meet_ends failed
    · exact rest children (fun _ held => held) _ _ failed

end Harvest

end HarvestPlan
