import HarvestPlan.Proofs.Harvest.Preorder
import HarvestPlan.Proofs.Lists

namespace HarvestPlan.Harvest

open scoped List

def IsQuiet (cancel : Cancel) (first last : Nat) : Prop :=
  ∀ asked, first ≤ asked → asked < last → cancel.isSet asked = false

theorem isQuiet_succ {cancel : Cancel} {asked : Nat} :
    IsQuiet cancel asked (asked + 1) ↔ cancel.isSet asked = false := by
  constructor
  · exact fun quiet => quiet asked (Nat.le_refl asked) (Nat.lt_succ_self asked)
  · intro unset other least most
    obtain rfl : other = asked := by omega
    exact unset

theorem isQuiet_append {cancel : Cancel} {first middle last : Nat} (least : first ≤ middle)
    (most : middle ≤ last) :
    IsQuiet cancel first last ↔ IsQuiet cancel first middle ∧ IsQuiet cancel middle last := by
  constructor
  · intro quiet
    exact ⟨fun asked from_ below => quiet asked from_ (by omega),
      fun asked from_ below => quiet asked (by omega) below⟩
  · rintro ⟨early, late⟩ asked from_ below
    by_cases before : asked < middle
    · exact early asked from_ before
    · exact late asked (by omega) below

variable {credentials : Credentials} {cancel : Cancel} {root : String}

theorem warnAll_asked (progress : Progress) (failed : List (String × String)) :
    (progress.warnAll failed).asked = progress.asked := by
  induction failed generalizing progress with
  | nil => rfl
  | cons failure rest ih => exact ih _

theorem meet_through {status : Status} {progress : Progress}
    (made : ∃ entry, entryOf root credentials status = .ok entry)
    (quiet : cancel.isSet progress.asked = false) :
    ∃ after, meet credentials cancel root status progress = .ok after ∧
      after.asked = progress.asked + 1 := by
  obtain ⟨entry, made⟩ := made
  refine ⟨({ progress with asked := progress.asked + 1 } : Progress).note entry, ?_, rfl⟩
  simp only [meet, ask_eq_ok_iff.mpr ⟨quiet, rfl⟩, made, stopAt, Outcome.ok_mapError, bind, Except.bind]
  rfl

theorem meet_asked {status : Status} {progress after : Progress}
    (met : meet credentials cancel root status progress = .ok after) :
    after.asked = progress.asked + 1 ∧ cancel.isSet progress.asked = false := by
  obtain ⟨asked, asking, met⟩ := Outcome.bind_ok met
  obtain ⟨entry, -, met⟩ := Outcome.bind_ok met
  cases met
  obtain ⟨quiet, rfl⟩ := ask_eq_ok_iff.mp asking
  exact ⟨rfl, quiet⟩

mutual

theorem visit_through (tree : Tree) (read : tree.IsRead)
    (made : ∀ status ∈ tree.statuses, ∃ entry, entryOf root credentials status = .ok entry)
    {progress : Progress} (quiet : IsQuiet cancel progress.asked (progress.asked + tree.size)) :
    ∃ after, visit credentials cancel root tree progress = .ok after ∧
      after.asked = progress.asked + tree.size := by
  have first : cancel.isSet progress.asked = false :=
    quiet _ (Nat.le_refl _) (by cases tree <;> simp only [Tree.size] <;> omega)
  cases tree with
  | file status =>
    simp only [visit]
    exact meet_through (made status (by simp [Tree.statuses])) first
  | unlisted status failed cause =>
    obtain ⟨noted, met, asked⟩ := meet_through (made status (by simp [Tree.statuses])) first
    cases read with
    | @unlisted _ _ error =>
      refine ⟨(noted.warnAll failed).warn .readError status.path error.message, ?_, ?_⟩
      · simp only [visit, met, giveUp]
        rfl
      · change (noted.warnAll failed).asked = _
        rw [warnAll_asked, asked]
        rfl
  | folder status failed children =>
    obtain ⟨noted, met, asked⟩ := meet_through (made status (by simp [Tree.statuses])) first
    cases read with
    | folder below =>
      have start : (noted.warnAll failed).asked = progress.asked + 1 := by rw [warnAll_asked, asked]
      have quietRest : IsQuiet cancel (noted.warnAll failed).asked
          ((noted.warnAll failed).asked + Tree.sizeAll children) := by
        intro later least most
        rw [start] at least most
        refine quiet later (by omega) ?_
        simp only [Tree.size]
        omega
      obtain ⟨after, visited, last⟩ := visitAll_through children below
        (fun other present => made other (by simp [Tree.statuses, present])) quietRest
      refine ⟨after, ?_, ?_⟩
      · simp only [visit, met]
        exact visited
      · rw [last, start]
        simp only [Tree.size]
        omega

theorem visitAll_through (trees : List Tree) (read : ∀ tree ∈ trees, tree.IsRead)
    (made : ∀ status ∈ Tree.statusesAll trees, ∃ entry, entryOf root credentials status = .ok entry)
    {progress : Progress}
    (quiet : IsQuiet cancel progress.asked (progress.asked + Tree.sizeAll trees)) :
    ∃ after, visitAll credentials cancel root trees progress = .ok after ∧
      after.asked = progress.asked + Tree.sizeAll trees := by
  cases trees with
  | nil => exact ⟨progress, rfl, rfl⟩
  | cons tree rest =>
    rw [Tree.sizeAll, ← Nat.add_assoc] at quiet
    obtain ⟨quietFirst, quietRest⟩ :=
      (isQuiet_append (Nat.le_add_right _ tree.size) (Nat.le_add_right _ _)).mp quiet
    obtain ⟨middle, visited, asked⟩ := visit_through tree (read tree (by simp))
      (fun status present => made status (by simp [Tree.statusesAll, present])) quietFirst
    rw [← asked] at quietRest
    obtain ⟨after, visitedRest, last⟩ := visitAll_through rest
      (fun other present => read other (List.mem_cons_of_mem _ present))
      (fun status present => made status (by simp [Tree.statusesAll, present])) quietRest
    refine ⟨after, ?_, ?_⟩
    · simp only [visitAll, visited]
      exact visitedRest
    · rw [last, asked]
      simp only [Tree.sizeAll]
      omega

end

mutual

theorem visit_asked (tree : Tree) {progress after : Progress}
    (visited : visit credentials cancel root tree progress = .ok after) :
    after.asked = progress.asked + tree.size ∧ IsQuiet cancel progress.asked after.asked := by
  cases tree with
  | file status =>
    simp only [visit] at visited
    obtain ⟨asked, quiet⟩ := meet_asked visited
    exact ⟨asked, asked ▸ isQuiet_succ.mpr quiet⟩
  | unlisted status failed cause =>
    simp only [visit] at visited
    obtain ⟨noted, met, visited⟩ := Outcome.bind_ok visited
    obtain ⟨asked, quiet⟩ := meet_asked met
    cases cause with
    | system error =>
      cases visited
      have same : ((noted.warnAll failed).warn .readError status.path error.message).asked =
          progress.asked + 1 := (warnAll_asked noted failed).trans asked
      exact ⟨same, same ▸ isQuiet_succ.mpr quiet⟩
    | _ => cases visited
  | folder status failed children =>
    simp only [visit] at visited
    obtain ⟨noted, met, visited⟩ := Outcome.bind_ok visited
    obtain ⟨asked, quiet⟩ := meet_asked met
    obtain ⟨last, quietRest⟩ := visitAll_asked children visited
    rw [warnAll_asked, asked] at last quietRest
    refine ⟨?_, ?_⟩
    · rw [last]
      simp only [Tree.size]
      omega
    · exact (isQuiet_append (Nat.le_succ _) (by omega)).mpr ⟨isQuiet_succ.mpr quiet, quietRest⟩

theorem visitAll_asked (trees : List Tree) {progress after : Progress}
    (visited : visitAll credentials cancel root trees progress = .ok after) :
    after.asked = progress.asked + Tree.sizeAll trees ∧
      IsQuiet cancel progress.asked after.asked := by
  cases trees with
  | nil =>
    cases visited
    exact ⟨rfl, fun asked least most => by omega⟩
  | cons tree rest =>
    simp only [visitAll] at visited
    obtain ⟨middle, first, visited⟩ := Outcome.bind_ok visited
    obtain ⟨asked, quiet⟩ := visit_asked tree first
    obtain ⟨last, quietRest⟩ := visitAll_asked rest visited
    refine ⟨?_, ?_⟩
    · rw [last, asked]
      simp only [Tree.sizeAll]
      omega
    · exact (isQuiet_append (by omega) (by omega)).mpr ⟨quiet, quietRest⟩

end

theorem visit_sublist {tree fewer : Tree} {progress after : Progress}
    (visited : visit credentials cancel root tree progress = .ok after) (read : fewer.IsRead)
    (some_ : fewer.statuses <+ tree.statuses) :
    ∃ last, visit credentials cancel root fewer progress = .ok last := by
  obtain ⟨-, ⟨entries, -, made⟩, -⟩ := visit_adds tree visited
  obtain ⟨asked, quiet⟩ := visit_asked tree visited
  have each : ∀ status ∈ fewer.statuses, ∃ entry, entryOf root credentials status = .ok entry :=
    fun status present => Lists.forall_left (P := fun status => ∃ entry,
      entryOf root credentials status = .ok entry) made (fun _ entry same => ⟨entry, same⟩) status
        (some_.subset present)
  have size : fewer.size ≤ tree.size := by
    rw [fewer.size_eq, tree.size_eq]
    exact some_.length_le
  have quietFewer : IsQuiet cancel progress.asked (progress.asked + fewer.size) :=
    fun later least most => quiet later least (by omega)
  obtain ⟨last, visitedFewer, -⟩ := visit_through fewer read each quietFewer
  exact ⟨last, visitedFewer⟩

end HarvestPlan.Harvest
