import HarvestPlan.Proofs.Harvest.Recursive
import HarvestPlan.Proofs.Harvest.Opened

namespace HarvestPlan

namespace Tree

mutual

def statuses : Tree → List Status
  | file status | unlisted status _ _ => [status]
  | folder status _ children => status :: statusesAll children

def statusesAll : List Tree → List Status
  | [] => []
  | tree :: rest => statuses tree ++ statusesAll rest

end

def readErrors (failed : List (String × String)) : List Warning :=
  failed.map fun (path, text) => ⟨.readError, path, text⟩

mutual

def warnings : Tree → List Warning
  | file _ => []
  | unlisted status failed (.system error) =>
    readErrors failed ++ [⟨.readError, status.path, error.message⟩]
  | unlisted _ failed _ => readErrors failed
  | folder _ failed children => readErrors failed ++ warningsAll children

def warningsAll : List Tree → List Warning
  | [] => []
  | tree :: rest => warnings tree ++ warningsAll rest

end

theorem statusesAll_eq (trees : List Tree) : statusesAll trees = trees.flatMap statuses := by
  induction trees with
  | nil => rfl
  | cons tree rest ih => rw [statusesAll, ih, List.flatMap_cons]

theorem warningsAll_eq (trees : List Tree) : warningsAll trees = trees.flatMap warnings := by
  induction trees with
  | nil => rfl
  | cons tree rest ih => rw [warningsAll, ih, List.flatMap_cons]

mutual

theorem size_eq (tree : Tree) : tree.size = tree.statuses.length := by
  cases tree with
  | file status => rfl
  | unlisted status failed cause => rfl
  | folder status failed children =>
    simp only [size, statuses, List.length_cons, sizeAll_eq children]

theorem sizeAll_eq (trees : List Tree) : sizeAll trees = (statusesAll trees).length := by
  cases trees with
  | nil => rfl
  | cons tree rest =>
    simp only [sizeAll, statusesAll, List.length_append, size_eq tree, sizeAll_eq rest]

end

inductive IsRead : Tree → Prop
  | file {status : Status} : IsRead (.file status)
  | unlisted {status : Status} {failed : List (String × String)} {error : SystemError} :
      IsRead (.unlisted status failed (.system error))
  | folder {status : Status} {failed : List (String × String)} {children : List Tree}
      (below : ∀ child ∈ children, IsRead child) : IsRead (.folder status failed children)

end Tree

namespace Harvest

/-- What is noted from one progress to another: an entry for each status, and the warnings. -/
structure Leaves (credentials : Credentials) (before after : Progress) (met : List (String × Status))
    (warnings : List Warning) : Prop where
  entries : ∃ entries, after.entries.toList = before.entries.toList ++ entries ∧
    met.Forall₂ (fun (root, status) entry => entryOf root credentials status = .ok entry) entries
  warnings : after.warnings.toList = before.warnings.toList ++ warnings

theorem Leaves.none (credentials : Credentials) {before after : Progress}
    (entries : after.entries = before.entries) (same : after.warnings = before.warnings) :
    Leaves credentials before after [] [] :=
  ⟨⟨[], by simp [entries], .nil⟩, by simp [same]⟩

theorem Leaves.trans {credentials : Credentials} {before middle after : Progress}
    {met more : List (String × Status)} {warnings others : List Warning}
    (first : Leaves credentials before middle met warnings)
    (second : Leaves credentials middle after more others) :
    Leaves credentials before after (met ++ more) (warnings ++ others) := by
  obtain ⟨⟨entries, noted, each⟩, warned⟩ := first
  obtain ⟨⟨rest, notedRest, eachRest⟩, warnedRest⟩ := second
  refine ⟨⟨entries ++ rest, ?_, List.rel_append each eachRest⟩, ?_⟩
  · rw [notedRest, noted, List.append_assoc]
  · rw [warnedRest, warned, List.append_assoc]

structure Adds (credentials : Credentials) (root : String) (before after : Progress)
    (statuses : List Status) (warnings : List Warning) : Prop where
  entries : ∃ entries, after.entries.toList = before.entries.toList ++ entries ∧
    statuses.Forall₂ (fun status entry => entryOf root credentials status = .ok entry) entries
  warnings : after.warnings.toList = before.warnings.toList ++ warnings

theorem adds_iff_leaves {credentials : Credentials} {root : String} {before after : Progress}
    {statuses : List Status} {warnings : List Warning} :
    Adds credentials root before after statuses warnings ↔
      Leaves credentials before after (statuses.map (root, ·)) warnings := by
  constructor
  · rintro ⟨⟨entries, noted, each⟩, warned⟩
    exact ⟨⟨entries, noted, List.forall₂_map_left_iff.mpr each⟩, warned⟩
  · rintro ⟨⟨entries, noted, each⟩, warned⟩
    exact ⟨⟨entries, noted, List.forall₂_map_left_iff.mp each⟩, warned⟩

theorem warn_leaves (credentials : Credentials) (progress : Progress) (kind : WarningKind)
    (path text : String) :
    Leaves credentials progress (progress.warn kind path text) [] [⟨kind, path, text⟩] :=
  ⟨⟨[], by simp [Progress.warn], .nil⟩, by simp [Progress.warn]⟩

theorem warnAll_leaves (credentials : Credentials) (failed : List (String × String))
    (progress : Progress) :
    Leaves credentials progress (progress.warnAll failed) [] (Tree.readErrors failed) := by
  induction failed generalizing progress with
  | nil => exact .none credentials rfl rfl
  | cons failure rest ih =>
    obtain ⟨path, text⟩ := failure
    exact (warn_leaves credentials progress .readError path text).trans (ih _)

mutual

theorem visit_isRead {credentials : Credentials} {cancel : Cancel} {root : String} (tree : Tree)
    {progress after : Progress} (visited : visit credentials cancel root tree progress = .ok after) :
    tree.IsRead := by
  cases tree with
  | file status => exact .file
  | unlisted status failed cause =>
    simp only [visit] at visited
    obtain ⟨noted, -, visited⟩ := Outcome.bind_ok visited
    cases cause with
    | system error => exact .unlisted
    | _ => cases visited
  | folder status failed children =>
    simp only [visit] at visited
    obtain ⟨noted, -, visited⟩ := Outcome.bind_ok visited
    exact .folder (visitAll_isRead children visited)

theorem visitAll_isRead {credentials : Credentials} {cancel : Cancel} {root : String}
    (trees : List Tree) {progress after : Progress}
    (visited : visitAll credentials cancel root trees progress = .ok after) :
    ∀ tree ∈ trees, tree.IsRead := by
  cases trees with
  | nil => simp
  | cons tree rest =>
    simp only [visitAll] at visited
    obtain ⟨middle, first, visited⟩ := Outcome.bind_ok visited
    exact List.forall_mem_cons.mpr ⟨visit_isRead tree first, visitAll_isRead rest visited⟩

end

end Harvest

namespace RootView

open Harvest

def met : RootView → List (String × Status)
  | refused _ | unknown _ => []
  | seen normalized tree => tree.statuses.map (treeRoot normalized tree.status, ·)

def warnings (root : String) : RootView → List Warning
  | unknown (.system error) =>
    [⟨if error.isMissing then .missingRoot else .readError, root, error.message⟩]
  | unknown _ | refused _ => []
  | seen _ tree => tree.warnings

end RootView

namespace Harvest

section Noting

variable {credentials : Credentials} {cancel : Cancel} {root : String} {before middle after : Progress}
  {met more : List (String × Status)} {warnings others : List Warning}

/-- A walk that goes through has noted it all; one that stops has noted what comes first of it. -/
def Leaving (credentials : Credentials) (before : Progress) (met : List (String × Status))
    (warnings : List Warning) : Except Stopped Progress → Prop :=
  Outcome.Ends (Leaves credentials before · met warnings) fun stopped =>
    ∃ some_ few, some_ <+: met ∧ few <+: warnings ∧ Leaves credentials before stopped.progress some_ few

variable {done : Except Stopped Progress} {next : Progress → Except Stopped Progress}

theorem leaving_stopped {cause : Failure} (entries : after.entries = before.entries)
    (same : after.warnings = before.warnings) :
    Leaving credentials before met warnings (.error ⟨cause, after⟩) :=
  .error ⟨[], [], List.nil_prefix, List.nil_prefix, .none credentials entries same⟩

theorem Leaving.append (noted : Leaving credentials middle more others done)
    (first : Leaves credentials before middle met warnings) :
    Leaving credentials before (met ++ more) (warnings ++ others) done := by
  refine noted.imp (fun after later => first.trans later) fun stopped => ?_
  rintro ⟨some_, few, begins, starts, notes⟩
  exact ⟨met ++ some_, warnings ++ few, (List.prefix_append_right_inj _).mpr begins,
    (List.prefix_append_right_inj _).mpr starts, first.trans notes⟩

theorem Leaving.bind (noted : Leaving credentials before met warnings done)
    (go : ∀ middle, Leaving credentials middle more others (next middle)) :
    Leaving credentials before (met ++ more) (warnings ++ others) (done >>= next) := by
  cases noted with
  | ok first => exact (go _).append first
  | error own =>
    obtain ⟨some_, few, begins, starts, notes⟩ := own
    exact .error ⟨some_, few, begins.trans (List.prefix_append _ _),
      starts.trans (List.prefix_append _ _), notes⟩

theorem Leaving.located (noted : Leaving credentials before met warnings done) (tag : String) :
    Leaving credentials before met warnings (done.mapError (locate root tag)) := by
  cases noted with
  | ok whole => exact .ok whole
  | @error stopped own =>
    refine .error ?_
    unfold locate
    split <;> exact own

theorem ask_leaving (progress : Progress) :
    Leaving credentials progress [] [] (progress.ask cancel) := by
  unfold Progress.ask
  dsimp only
  split
  · exact leaving_stopped rfl rfl
  · exact .ok (.none _ rfl rfl)

theorem meet_leaving (credentials : Credentials) (cancel : Cancel) (root : String) (status : Status)
    (progress : Progress) :
    Leaving credentials progress [(root, status)] [] (meet credentials cancel root status progress) := by
  refine (ask_leaving progress).bind fun asked => ?_
  cases known : entryOf root credentials status with
  | error cause => exact leaving_stopped rfl rfl
  | ok entry =>
    exact .ok ⟨⟨[entry], by simp [Progress.note], .cons known .nil⟩, by simp [Progress.note]⟩

theorem giveUp_leaving (credentials : Credentials) (status : Status)
    (failed : List (String × String)) (cause : Failure) (progress : Progress) :
    Leaving credentials progress [] (Tree.unlisted status failed cause).warnings
      (giveUp status cause (progress.warnAll failed)) := by
  have failures := warnAll_leaves credentials failed progress
  cases cause with
  | system error => exact .ok (failures.trans (warn_leaves credentials _ _ _ _))
  | _ => exact .error ⟨[], _, List.nil_prefix, List.prefix_rfl, failures⟩

mutual

theorem visit_leaving (tree : Tree) (progress : Progress) :
    Leaving credentials progress (tree.statuses.map (root, ·)) tree.warnings
      (visit credentials cancel root tree progress) := by
  cases tree with
  | file status => exact meet_leaving credentials cancel root status progress
  | unlisted status failed cause =>
    have walked := (meet_leaving credentials cancel root status progress).bind
      (giveUp_leaving credentials status failed cause)
    rw [visit]
    exact walked
  | folder status failed children =>
    refine (meet_leaving credentials cancel root status progress).bind fun noted => ?_
    exact (visitAll_leaving children _).append (warnAll_leaves credentials failed noted)

theorem visitAll_leaving (trees : List Tree) (progress : Progress) :
    Leaving credentials progress ((Tree.statusesAll trees).map (root, ·)) (Tree.warningsAll trees)
      (visitAll credentials cancel root trees progress) := by
  cases trees with
  | nil => exact .ok (.none _ rfl rfl)
  | cons tree rest =>
    rw [Tree.statusesAll, List.map_append]
    exact (visit_leaving tree progress).bind fun middle => visitAll_leaving rest middle

end

theorem visit_adds (tree : Tree) {progress : Progress}
    (visited : visit credentials cancel root tree progress = .ok after) :
    tree.IsRead ∧ Adds credentials root progress after tree.statuses tree.warnings := by
  have noted : Leaving credentials progress (tree.statuses.map (root, ·)) tree.warnings (.ok after) :=
    visited ▸ visit_leaving tree progress
  cases noted with
  | ok whole => exact ⟨visit_isRead tree visited, adds_iff_leaves.mpr whole⟩

theorem visitView_leaving (view : RootView) (progress : Progress) :
    Leaving credentials progress view.met (view.warnings root)
      (visitView credentials cancel root view progress) := by
  cases view with
  | refused cause => exact leaving_stopped rfl rfl
  | unknown cause =>
    cases cause with
    | system error => exact .ok (warn_leaves credentials progress _ _ _)
    | _ => exact leaving_stopped rfl rfl
  | seen normalized tree => exact visit_leaving tree progress

/-- The walk over the roots notes an entry for each status of their trees, and a warning for each
    failure, root by root and each tree in preorder; if it stops, those that come first. -/
theorem visitViews_leaving (tag : String) (views : List (String × RootView)) (progress : Progress) :
    Leaving credentials progress (views.flatMap fun (_, view) => view.met)
      (views.flatMap fun (root, view) => view.warnings root)
      (visitViews credentials cancel tag views progress) := by
  induction views generalizing progress with
  | nil => exact .ok (.none _ rfl rfl)
  | cons first rest ih =>
    obtain ⟨root, view⟩ := first
    refine (ask_leaving progress).bind fun asked => ?_
    exact ((visitView_leaving view asked).located tag).bind ih

end Noting

end Harvest
end HarvestPlan
