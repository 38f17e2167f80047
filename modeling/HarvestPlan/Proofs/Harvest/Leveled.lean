import HarvestPlan.Proofs.Harvest.Through

namespace HarvestPlan.Tree

mutual

def leveled (level : Nat) : Tree → List (Nat × Status)
  | file status | unlisted status _ _ => [(level, status)]
  | folder status _ children => (level, status) :: leveledAll (level + 1) children

def leveledAll (level : Nat) : List Tree → List (Nat × Status)
  | [] => []
  | tree :: rest => leveled level tree ++ leveledAll level rest

end

def atLevel {α : Type} (level : Nat) (items : List α) : List (Nat × α) := items.map (level, ·)

theorem atLevel_items {α : Type} (level : Nat) (items : List α) :
    (atLevel level items).map (·.2) = items := by
  simp [atLevel, Function.comp_def]

theorem atLevel_level {α : Type} {level : Nat} {items : List α} :
    ∀ item ∈ atLevel level items, item.1 = level := by
  intro item present
  obtain ⟨own, -, rfl⟩ := List.mem_map.mp present
  rfl

mutual

def leveledWarnings (level : Nat) : Tree → List (Nat × Warning)
  | file _ => []
  | unlisted status failed cause => atLevel level (unlisted status failed cause).warnings
  | folder _ failed children =>
    atLevel level (readErrors failed) ++ leveledWarningsAll (level + 1) children

def leveledWarningsAll (level : Nat) : List Tree → List (Nat × Warning)
  | [] => []
  | tree :: rest => leveledWarnings level tree ++ leveledWarningsAll level rest

end

mutual

theorem leveled_statuses (level : Nat) (tree : Tree) :
    (tree.leveled level).map (·.2) = tree.statuses := by
  cases tree with
  | file status | unlisted status failed cause => rfl
  | folder status failed children =>
    simp only [leveled, statuses, List.map_cons, leveledAll_statuses (level + 1) children]

theorem leveledAll_statuses (level : Nat) (trees : List Tree) :
    (leveledAll level trees).map (·.2) = statusesAll trees := by
  cases trees with
  | nil => rfl
  | cons tree rest =>
    simp only [leveledAll, statusesAll, List.map_append, leveled_statuses level tree,
      leveledAll_statuses level rest]

end

mutual

theorem leveledWarnings_warnings (level : Nat) (tree : Tree) :
    (tree.leveledWarnings level).map (·.2) = tree.warnings := by
  cases tree with
  | file status => rfl
  | unlisted status failed cause => exact atLevel_items level _
  | folder status failed children =>
    simp only [leveledWarnings, warnings, List.map_append, atLevel_items,
      leveledWarningsAll_warnings (level + 1) children]

theorem leveledWarningsAll_warnings (level : Nat) (trees : List Tree) :
    (leveledWarningsAll level trees).map (·.2) = warningsAll trees := by
  cases trees with
  | nil => rfl
  | cons tree rest =>
    simp only [leveledWarningsAll, warningsAll, List.map_append, leveledWarnings_warnings level tree,
      leveledWarningsAll_warnings level rest]

end

mutual

theorem level_le {level : Nat} (tree : Tree) : ∀ node ∈ tree.leveled level, level ≤ node.1 := by
  cases tree with
  | file status | unlisted status failed cause => simp [leveled]
  | folder status failed children =>
    intro node present
    rcases List.mem_cons.mp present with rfl | present
    · exact Nat.le_refl level
    · exact Nat.le_of_succ_le (levelAll_le children node present)

theorem levelAll_le {level : Nat} (trees : List Tree) :
    ∀ node ∈ leveledAll level trees, level ≤ node.1 := by
  cases trees with
  | nil => simp [leveledAll]
  | cons tree rest =>
    intro node present
    rcases List.mem_append.mp present with present | present
    · exact level_le tree node present
    · exact levelAll_le rest node present

end

mutual

theorem warningLevel_le {level : Nat} (tree : Tree) :
    ∀ warning ∈ tree.leveledWarnings level, level ≤ warning.1 := by
  cases tree with
  | file status => simp [leveledWarnings]
  | unlisted status failed cause => exact fun warning present => Nat.le_of_eq (atLevel_level _ present).symm
  | folder status failed children =>
    intro warning present
    rcases List.mem_append.mp present with present | present
    · exact Nat.le_of_eq (atLevel_level _ present).symm
    · exact Nat.le_of_succ_le (warningLevelAll_le children warning present)

theorem warningLevelAll_le {level : Nat} (trees : List Tree) :
    ∀ warning ∈ leveledWarningsAll level trees, level ≤ warning.1 := by
  cases trees with
  | nil => simp [leveledWarningsAll]
  | cons tree rest =>
    intro warning present
    rcases List.mem_append.mp present with present | present
    · exact warningLevel_le tree warning present
    · exact warningLevelAll_le rest warning present

end

/-- The tree as far as it is known when only the top is listed: its children are then like files. -/
def top : Tree → Tree
  | folder status failed children => folder status failed (children.map fun child => file child.status)
  | tree => tree

theorem leveled_own (level : Nat) (tree : Tree) :
    (tree.leveled level).filter (·.1 ≤ level) = [(level, tree.status)] := by
  cases tree with
  | file status | unlisted status failed cause => simp [leveled, Tree.status]
  | folder status failed children =>
    have below : (leveledAll (level + 1) children).filter (·.1 ≤ level) = [] := by
      refine List.filter_eq_nil_iff.mpr fun node present => ?_
      have deeper := levelAll_le children node present
      simp only [decide_eq_true_eq]
      omega
    simp only [leveled, List.filter_cons, Nat.le_refl, decide_true, if_true, below]
    rfl

theorem leveledAll_own (level : Nat) (trees : List Tree) :
    (leveledAll level trees).filter (·.1 ≤ level) =
      leveledAll level (trees.map fun tree => file tree.status) := by
  induction trees with
  | nil => rfl
  | cons tree rest ih =>
    rw [leveledAll, List.filter_append, leveled_own, ih]
    rfl

theorem leveledWarningsAll_files (level : Nat) (trees : List Tree) :
    leveledWarningsAll level (trees.map fun tree => file tree.status) = [] := by
  induction trees with
  | nil => rfl
  | cons tree rest ih => exact ih

theorem leveled_top (tree : Tree) : tree.top.leveled 0 = (tree.leveled 0).filter (·.1 ≤ 1) := by
  cases tree with
  | file status | unlisted status failed cause => rfl
  | folder status failed children =>
    simp only [top, leveled, List.filter_cons, Nat.zero_le, decide_true, if_true, Nat.zero_add,
      leveledAll_own]

theorem leveledWarnings_top (tree : Tree) :
    tree.top.leveledWarnings 0 = (tree.leveledWarnings 0).filter (·.1 = 0) := by
  have own {warnings : List Warning} :
      (atLevel 0 warnings).filter (·.1 = 0) = atLevel 0 warnings :=
    List.filter_eq_self.mpr fun warning present => by simpa using atLevel_level _ present
  cases tree with
  | file status => rfl
  | unlisted status failed cause => exact own.symm
  | folder status failed children =>
    have below : (leveledWarningsAll 1 children).filter (·.1 = 0) = [] := by
      refine List.filter_eq_nil_iff.mpr fun warning present => ?_
      have deeper := warningLevelAll_le children warning present
      simp only [decide_eq_true_eq]
      omega
    simp only [top, leveledWarnings, leveledWarningsAll_files, List.filter_append, own, below]

theorem IsRead.top {tree : Tree} (read : tree.IsRead) : tree.top.IsRead := by
  cases read with
  | file => exact .file
  | unlisted => exact .unlisted
  | folder below =>
    refine .folder fun child present => ?_
    obtain ⟨tree, -, rfl⟩ := List.mem_map.mp present
    exact .file

theorem top_statuses_sublist (tree : Tree) : tree.top.statuses.Sublist tree.statuses := by
  rw [← leveled_statuses 0, ← leveled_statuses 0, leveled_top]
  exact List.filter_sublist.map _

end HarvestPlan.Tree
