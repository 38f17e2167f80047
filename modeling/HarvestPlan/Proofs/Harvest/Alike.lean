import HarvestPlan.Proofs.Harvest.Meeting
import HarvestPlan.Proofs.Harvest.Through
import HarvestPlan.Proofs.Storage.Rearranged

/-!
Two storages that a harvest cannot tell apart, but for the order in which they report what has failed.
Walks over them go side by side: they meet the same nodes, note the same entries, and ask whether to
give up at the same times.
-/
namespace HarvestPlan

def Outcome.Follows {ε α : Type} (alike : α → α → Prop) (second first : Except ε α) : Prop :=
  ∀ a, first = .ok a → ∃ b, second = .ok b ∧ alike b a

namespace Outcome.Follows

variable {ε α β : Type} {R : α → α → Prop} {S : β → β → Prop}

theorem of_error {second : Except ε α} (cause : ε) : Follows R second (.error cause) := nofun

theorem of_ok {a b : α} (alike : R b a) : Follows R (.ok b : Except ε α) (.ok a) := by
  intro c same
  cases same
  exact ⟨b, rfl, alike⟩

theorem bind {first second : Except ε α} {next following : α → Except ε β}
    (start : Follows R second first) (go : ∀ a b, R b a → Follows S (following b) (next a)) :
    Follows S (second >>= following) (first >>= next) := by
  intro c done
  obtain ⟨a, here, later⟩ := bind_ok done
  obtain ⟨b, there, alike⟩ := start a here
  obtain ⟨d, ended, alikeEnd⟩ := go a b alike c later
  exact ⟨d, by rw [there]; exact ended, alikeEnd⟩

theorem mapError {ε' : Type} {first second : Except ε α} (start : Follows R second first)
    (f g : ε → ε') : Follows R (second.mapError g) (first.mapError f) := by
  intro a done
  obtain ⟨b, there, alike⟩ := start a (mapError_ok done)
  exact ⟨b, by rw [there]; rfl, alike⟩

end Outcome.Follows

open Outcome (Follows)

structure Backend.IsLike (other backend : Backend) : Prop where
  normalizeRoot : ∀ root, other.normalizeRoot root = backend.normalizeRoot root
  stat : ∀ path, other.stat path = backend.stat path
  list : ∀ path, (other.list path).IsLike (backend.list path)

structure HarvestResult.IsLike (other result : HarvestResult) : Prop where
  entries : other.entries = result.entries
  warnings : other.warnings.Perm result.warnings

namespace Harvest

structure Progress.IsLike (other progress : Progress) : Prop where
  entries : other.entries = progress.entries
  warnings : other.warnings.toList.Perm progress.warnings.toList
  asked : other.asked = progress.asked

theorem warnAll_warnings (progress : Progress) (failed : List (String × String)) :
    (progress.warnAll failed).warnings.toList =
      progress.warnings.toList ++ Tree.readErrors failed := by
  induction failed generalizing progress with
  | nil => simp [Progress.warnAll, Tree.readErrors]
  | cons failure rest ih =>
    refine (ih _).trans ?_
    simp [Progress.warn, Tree.readErrors]

namespace Progress.IsLike

variable {other progress : Progress}

theorem refl (progress : Progress) : progress.IsLike progress := ⟨rfl, .refl _, rfl⟩

theorem note (alike : other.IsLike progress) (entry : Entry) :
    (other.note entry).IsLike (progress.note entry) :=
  ⟨by rw [Progress.note, alike.entries]; rfl, alike.warnings, alike.asked⟩

theorem warn (alike : other.IsLike progress) (kind : WarningKind) (path text : String) :
    (other.warn kind path text).IsLike (progress.warn kind path text) := by
  refine ⟨alike.entries, ?_, alike.asked⟩
  simpa [Progress.warn] using alike.warnings.append_right [⟨kind, path, text⟩]

theorem warnAll (alike : other.IsLike progress) {failed more : List (String × String)}
    (perm : more.Perm failed) : (other.warnAll more).IsLike (progress.warnAll failed) := by
  refine ⟨?_, ?_, ?_⟩
  · rw [warnAll_entries, warnAll_entries, alike.entries]
  · rw [warnAll_warnings, warnAll_warnings]
    exact alike.warnings.append (perm.map _)
  · rw [warnAll_asked, warnAll_asked, alike.asked]

theorem ask (alike : other.IsLike progress) (cancel : Cancel) :
    Follows IsLike (other.ask cancel) (progress.ask cancel) := by
  unfold Progress.ask
  simp only [alike.asked]
  split
  · exact .of_error _
  · exact .of_ok ⟨alike.entries, alike.warnings, by rfl⟩

end Progress.IsLike

theorem meet_follows {other progress : Progress} (alike : other.IsLike progress)
    (credentials : Credentials) (cancel : Cancel) (root : String) (status : Status) :
    Follows Progress.IsLike (meet credentials cancel root status other)
      (meet credentials cancel root status progress) := by
  refine (alike.ask cancel).bind fun asked otherAsked alikeAsked => ?_
  cases entryOf root credentials status with
  | error cause => exact .of_error _
  | ok entry => exact .of_ok (alikeAsked.note entry)

variable {setting : Setting} {backend : Backend}

theorem expand_follows (like : backend.IsLike setting.backend) {other progress : Progress}
    (alike : other.IsLike progress) (status : Status) (depth : Nat) :
    Follows (fun second first => second.1 = first.1 ∧ second.2.IsLike first.2)
      (expand { setting with backend := backend } status depth other)
      (expand setting status depth progress) := by
  have listings := like.list status.path
  unfold Listing.IsLike Listing.GoesOn at listings
  have listedAlike : isListed { setting with backend := backend } status depth =
      isListed setting status depth := rfl
  unfold expand
  rw [listedAlike]
  cases isListed setting status depth with
  | false => exact .of_ok ⟨rfl, alike⟩
  | true =>
    cases children : (setting.backend.list status.path).children with
    | ok statuses =>
      obtain ⟨same, failed⟩ := listings (by simp [children])
      simp only [same, children]
      exact .of_ok ⟨rfl, alike.warnAll failed⟩
    | error cause =>
      cases cause with
      | system error =>
        obtain ⟨same, failed⟩ := listings (by simp [children])
        simp only [same, children]
        exact .of_ok ⟨rfl, (alike.warnAll failed).warn _ _ _⟩
      | _ =>
        simp only [children]
        exact .of_error _

theorem walk_follows (like : backend.IsLike setting.backend) (root : String) (limit : Nat)
    (pending : List (Status × Nat)) {other progress : Progress} (alike : other.IsLike progress) :
    Follows Progress.IsLike (walk { setting with backend := backend } root limit pending other)
      (walk setting root limit pending progress) := by
  induction limit generalizing pending other progress with
  | zero =>
    cases pending with
    | nil => exact .of_ok alike
    | cons place pending => exact .of_error _
  | succ limit ih =>
    cases pending with
    | nil => exact .of_ok alike
    | cons place pending =>
      obtain ⟨status, depth⟩ := place
      rw [walk_cons, walk_cons]
      refine (meet_follows alike setting.credentials setting.cancel root status).bind
        fun noted otherNoted alikeNoted => ?_
      refine (expand_follows like alikeNoted status depth).bind ?_
      rintro ⟨children, grown⟩ ⟨otherChildren, otherGrown⟩ ⟨rfl, alikeGrown⟩
      exact ih _ alikeGrown

theorem visitRoot_follows (like : backend.IsLike setting.backend) (root : String)
    {other progress : Progress} (alike : other.IsLike progress) :
    Follows Progress.IsLike (visitRoot { setting with backend := backend } root other)
      (visitRoot setting root progress) := by
  cases normalizing : setting.backend.normalizeRoot root with
  | error cause =>
    rw [visitRoot_refused normalizing]
    exact .of_error _
  | ok normalized =>
    have normalizingOther := (like.normalizeRoot root).trans normalizing
    rw [visitRoot_normalized normalizing, visitRoot_normalized normalizingOther, like.stat]
    cases setting.backend.stat normalized with
    | ok status => exact walk_follows like _ _ _ alike
    | error cause =>
      cases cause with
      | system error => exact .of_ok (alike.warn _ _ _)
      | _ => exact .of_error _

/-- The walk over all roots: each goes on from progress that is alike. -/
theorem visitRoots_follows (like : backend.IsLike setting.backend) (tag : String)
    (roots : List String) :
    Follows Progress.IsLike (visitRoots { setting with backend := backend } tag roots)
      (visitRoots setting tag roots) := by
  have each : ∀ (roots : List String) {other progress : Progress}, other.IsLike progress →
      Follows Progress.IsLike
        (roots.foldlM (askAndVisit { setting with backend := backend } tag) other)
        (roots.foldlM (askAndVisit setting tag) progress) := by
    intro roots
    induction roots with
    | nil => exact fun alike => .of_ok alike
    | cons root rest ih =>
      intro other progress alike
      rw [List.foldlM_cons, List.foldlM_cons]
      refine Follows.bind ?_ fun after otherAfter alikeAfter => ih alikeAfter
      refine (alike.ask setting.cancel).bind fun asked otherAsked alikeAsked => ?_
      exact (visitRoot_follows like root alikeAsked).mapError _ _
  exact each roots (.refl _)

end Harvest
end HarvestPlan
