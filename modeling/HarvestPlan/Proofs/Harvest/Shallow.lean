import HarvestPlan.Proofs.Harvest.Leveled
import HarvestPlan.Proofs.Harvest.Local

namespace HarvestPlan

theorem Tree.sizeAll_append (trees others : List Tree) :
    Tree.sizeAll (trees ++ others) = Tree.sizeAll trees + Tree.sizeAll others := by
  induction trees with
  | nil => simp [sizeAll]
  | cons tree rest ih =>
    rw [List.cons_append, sizeAll, sizeAll, ih]
    omega

theorem Tree.length_le_sizeAll (trees : List Tree) : trees.length ≤ Tree.sizeAll trees := by
  induction trees with
  | nil => exact Nat.le_refl 0
  | cons tree rest ih =>
    obtain ⟨less, size⟩ := Tree.exists_limit (Nat.le_refl tree.size)
    rw [sizeAll, size, List.length_cons]
    omega

namespace Harvest

open scoped List

theorem expand_tree {setting : Setting} (recursive : setting.recursive = true) {status : Status}
    {depth : Nat} {progress grown : Progress} {children : List (Status × Nat)} {below : List Tree}
    (expanded : expand setting status depth progress = .ok (children, grown))
    (same : below.map Tree.status = children.map (·.1))
    (shown : ∀ tree ∈ below, tree.IsOf setting.backend) :
    ∃ tree : Tree, tree.status = status ∧ tree.IsOf setting.backend ∧
      tree.size ≤ Tree.sizeAll below + 1 := by
  cases directory : status.isDirectory with
  | false => exact ⟨.file status, rfl, .file directory, by simp [Tree.size]⟩
  | true =>
    rcases listing : setting.backend.list status.path with ⟨failed, cause | statuses⟩
    · exact ⟨.unlisted status failed cause, rfl, .unlisted directory listing, by simp [Tree.size]⟩
    · have listed : below.map Tree.status = statuses := by
        simp only [expand, isListed, directory, recursive, listing, Bool.or_true, Bool.and_self,
          Bool.not_true, Bool.false_eq_true, if_false] at expanded
        cases expanded
        simpa [Function.comp_def] using same
      exact ⟨.folder status failed below, rfl, .folder directory (listed ▸ listing) shown, Nat.le_refl _⟩

theorem exists_trees {setting : Setting} (recursive : setting.recursive = true) {root : String}
    {limit : Nat} {pending : List (Status × Nat)} {progress after : Progress}
    (walked : walk setting root limit pending progress = .ok after) :
    ∃ trees : List Tree, trees.map Tree.status = pending.map (·.1) ∧
      (∀ tree ∈ trees, tree.IsOf setting.backend) ∧ Tree.sizeAll trees ≤ limit := by
  -- By induction on the limit: the trees of what is pending next are those of the children and of the rest.
  induction limit generalizing pending progress with
  | zero =>
    cases pending with
    | nil => exact ⟨[], rfl, by simp, Nat.le_refl 0⟩
    | cons node rest => cases walked
  | succ limit ih =>
    cases pending with
    | nil => exact ⟨[], rfl, by simp, Nat.zero_le _⟩
    | cons node rest =>
      obtain ⟨status, depth⟩ := node
      rw [walk_cons] at walked
      obtain ⟨noted, -, walked⟩ := Outcome.bind_ok walked
      obtain ⟨⟨children, grown⟩, expanded, walked⟩ := Outcome.bind_ok walked
      obtain ⟨trees, same, shown, small⟩ := ih walked
      rw [List.map_append] at same
      obtain ⟨below, others, rfl, sameBelow, sameOthers⟩ := List.map_eq_append_iff.mp same
      obtain ⟨tree, rfl, shownTree, size⟩ := expand_tree recursive expanded sameBelow
        fun other present => shown other (List.mem_append_left _ present)
      rw [Tree.sizeAll_append] at small
      refine ⟨tree :: others, by rw [List.map_cons, List.map_cons, sameOthers], ?_, ?_⟩
      · intro other present
        rcases List.mem_cons.mp present with rfl | present
        · exact shownTree
        · exact shown other (List.mem_append_right _ present)
      · rw [Tree.sizeAll]
        omega

theorem walk_visits {setting : Setting} (recursive : setting.recursive = true) {root : String}
    {status : Status} {progress after : Progress}
    (walked : walk setting root setting.limit [(status, 0)] progress = .ok after) :
    ∃ tree : Tree, tree.status = status ∧ tree.IsOf setting.backend ∧ tree.size ≤ setting.limit ∧
      visit setting.credentials setting.cancel root tree progress = .ok after := by
  obtain ⟨trees, same, shown, small⟩ := exists_trees recursive walked
  obtain ⟨tree, rfl, rfl⟩ : ∃ tree, trees = [tree] ∧ tree.status = status := by
    obtain ⟨tree, rest, rfl, rfl, nothing⟩ := List.map_eq_cons_iff.mp same
    exact ⟨tree, by rw [List.map_eq_nil_iff.mp nothing], rfl⟩
  have enough : tree.size ≤ setting.limit := by simpa [Tree.sizeAll] using small
  refine ⟨tree, rfl, shown tree (by simp), enough, ?_⟩
  rw [walk_tree root recursive (shown tree (by simp)) 0 setting.limit [] progress enough] at walked
  obtain ⟨reached, visited, walked⟩ := Outcome.bind_ok walked
  rw [visited, ← walked, walk]

def Setting.shallow (setting : Setting) : Setting := { setting with recursive := false }

theorem Setting.shallow_recursive (setting : Setting) : setting.shallow.recursive = false := rfl

theorem walk_files {setting : Setting} (shallow : setting.recursive = false) (root : String)
    (depth : Nat) (trees : List Tree) {limit : Nat} (enough : trees.length ≤ limit)
    (progress : Progress) :
    walk setting root limit (trees.map fun tree => (tree.status, depth + 1)) progress =
      visitAll setting.credentials setting.cancel root (trees.map fun tree => .file tree.status)
        progress := by
  induction trees generalizing limit progress with
  | nil => cases limit <;> rfl
  | cons tree rest ih =>
    obtain ⟨limit, rfl⟩ : ∃ left, limit = left + 1 := ⟨limit - 1, by simp at enough; omega⟩
    have passed : isListed setting tree.status (depth + 1) = false := by simp [isListed, shallow]
    simp only [List.map_cons, walk_cons, expand_passed passed, visitAll, visit]
    congr 1
    funext reached
    exact ih (by simpa using enough) reached

theorem walk_top {setting : Setting} (shallow : setting.recursive = false) (root : String)
    {tree : Tree} (shown : tree.IsOf setting.backend) {limit : Nat} (enough : tree.size ≤ limit)
    (progress : Progress) :
    walk setting root limit [(tree.status, 0)] progress =
      visit setting.credentials setting.cancel root tree.top progress := by
  obtain ⟨limit, rfl⟩ := Tree.exists_limit enough
  have ends : walk setting root limit [] = pure := by
    funext reached
    simp [walk, pure, Except.pure]
  cases shown with
  | @file status plain =>
    have passed : isListed setting status 0 = false := by simp [isListed, plain]
    simp only [Tree.status, walk_cons, expand_passed passed, Tree.top, visit]
    exact (congrArg _ ends).trans (bind_pure _)
  | @unlisted status failed cause directory listing =>
    have listed : isListed setting status 0 = true := by simp [isListed, directory]
    simp only [Tree.status, walk_cons, expand_unlisted listed listing, Tree.top, visit, bind_assoc]
    congr 1
    funext reached
    exact (congrArg _ ends).trans (bind_pure _)
  | @folder status failed children directory listing below =>
    have listed : isListed setting status 0 = true := by simp [isListed, directory]
    have few : children.length ≤ limit := by
      have each := Tree.length_le_sizeAll children
      simp only [Tree.size, Nat.add_le_add_iff_right] at enough
      omega
    change walk setting root (limit + 1) [(status, 0)] progress = _
    simp only [walk_cons, expand_folder listed listing, Tree.top, visit]
    congr 1
    funext reached
    have met := walk_files shallow root 0 children few (reached.warnAll failed)
    simpa [bind, Except.bind, Function.comp_def] using met

/-- The entries and warnings of one root. The root itself is at level 0; a warning is at the level of the
    directory whose listing gives it. -/
structure Part where
  entries : List (Nat × Entry)
  warnings : List (Nat × Warning)

def Part.top (part : Part) : Part where
  entries := part.entries.filter (·.1 ≤ 1)
  warnings := part.warnings.filter (·.1 = 0)

def resultOf (parts : List Part) : HarvestResult where
  entries := parts.flatMap fun part => part.entries.map (·.2)
  warnings := parts.flatMap fun part => part.warnings.map (·.2)

def IsNoted (credentials : Credentials) (root : String) (node : Nat × Status) (noted : Nat × Entry) :
    Prop :=
  noted.1 = node.1 ∧ entryOf root credentials node.2 = .ok noted.2

/-- A root without a status has no entries and one warning, which is its own. -/
inductive Part.IsOf (backend : Backend) (credentials : Credentials) (root : String) : Part → Prop
  | unknown {normalized : String} {error : SystemError}
      (normalizing : backend.normalizeRoot root = .ok normalized)
      (looking : backend.stat normalized = .error (.system error)) :
      IsOf backend credentials root
        ⟨[], [(0, ⟨if error.isMissing then .missingRoot else .readError, root, error.message⟩)]⟩
  | seen {normalized : String} {tree : Tree} {entries : List (Nat × Entry)}
      (normalizing : backend.normalizeRoot root = .ok normalized)
      (looking : backend.stat normalized = .ok tree.status) (shown : tree.IsOf backend)
      (noted : (tree.leveled 0).Forall₂
        (IsNoted credentials (treeRoot normalized tree.status)) entries) :
      IsOf backend credentials root ⟨entries, tree.leveledWarnings 0⟩

structure Gains (before after : Progress) (parts : List Part) : Prop where
  entries : after.entries.toList = before.entries.toList ++ (resultOf parts).entries
  warnings : after.warnings.toList = before.warnings.toList ++ (resultOf parts).warnings

theorem Gains.refl (progress : Progress) : Gains progress progress [] := by
  constructor <;> simp [resultOf]

theorem Gains.trans {before middle after : Progress} {parts others : List Part}
    (first : Gains before middle parts) (second : Gains middle after others) :
    Gains before after (parts ++ others) := by
  constructor
  · simp [second.entries, first.entries, resultOf]
  · simp [second.warnings, first.warnings, resultOf]

variable {credentials : Credentials} {cancel : Cancel} {root : String}

theorem exists_noted {nodes : List (Nat × Status)} {entries : List Entry}
    (made : (nodes.map (·.2)).Forall₂
      (fun status entry => entryOf root credentials status = .ok entry) entries) :
    ∃ noted, nodes.Forall₂ (IsNoted credentials root) noted ∧ noted.map (·.2) = entries := by
  induction nodes generalizing entries with
  | nil =>
    cases made
    exact ⟨[], .nil, rfl⟩
  | cons node rest ih =>
    cases made with
    | cons same made =>
      obtain ⟨noted, each, rfl⟩ := ih made
      exact ⟨(node.1, _) :: noted, .cons ⟨rfl, same⟩ each, rfl⟩

theorem visit_gains {tree : Tree} {before after : Progress}
    (visited : visit credentials cancel root tree before = .ok after) :
    ∃ entries, (tree.leveled 0).Forall₂ (IsNoted credentials root) entries ∧
      Gains before after [⟨entries, tree.leveledWarnings 0⟩] := by
  obtain ⟨-, ⟨entries, noted, made⟩, warned⟩ := visit_adds tree visited
  rw [← tree.leveled_statuses 0] at made
  obtain ⟨leveled, each, rfl⟩ := exists_noted made
  refine ⟨leveled, each, ?_, ?_⟩
  · simp [resultOf, noted]
  · simp [resultOf, warned, tree.leveledWarnings_warnings]

theorem noted_top {tree : Tree} {entries others : List (Nat × Entry)}
    (noted : (tree.leveled 0).Forall₂ (IsNoted credentials root) entries)
    (notedTop : (tree.top.leveled 0).Forall₂ (IsNoted credentials root) others) :
    others = entries.filter (·.1 ≤ 1) := by
  rw [tree.leveled_top] at notedTop
  refine List.right_unique_forall₂' ?_ notedTop (List.rel_filter ?_ noted)
  · rintro node ⟨level, entry⟩ ⟨otherLevel, other⟩ ⟨rfl, same⟩ ⟨rfl, otherSame⟩
    exact Prod.ext rfl (Except.ok.inj (same.symm.trans otherSame))
  · rintro node ⟨level, entry⟩ ⟨rfl, -⟩
    exact Iff.rfl

structure Trails (cancel : Cancel) (shallow whole : Progress) : Prop where
  fewer : shallow.asked ≤ whole.asked
  quiet : IsQuiet cancel 0 whole.asked

theorem visit_shallow {tree : Tree} {whole after shallow : Progress}
    (visited : visit credentials cancel root tree whole = .ok after)
    (trails : Trails cancel shallow whole) :
    ∃ entries last, (tree.leveled 0).Forall₂ (IsNoted credentials root) entries ∧
      Gains whole after [⟨entries, tree.leveledWarnings 0⟩] ∧
      visit credentials cancel root tree.top shallow = .ok last ∧
      Gains shallow last [Part.top ⟨entries, tree.leveledWarnings 0⟩] ∧ Trails cancel last after := by
  obtain ⟨read, ⟨made, -, each⟩, -⟩ := visit_adds tree visited
  obtain ⟨entries, noted, gains⟩ := visit_gains visited
  obtain ⟨asked, quiet⟩ := visit_asked tree visited
  have less := tree.top_statuses_sublist.length_le
  rw [← tree.top.size_eq, ← tree.size_eq] at less
  have fewer := trails.fewer
  have quietAfter : IsQuiet cancel 0 after.asked :=
    (isQuiet_append (Nat.zero_le _) (by omega)).mpr ⟨trails.quiet, quiet⟩
  have known : ∀ status ∈ tree.statuses, ∃ entry, entryOf root credentials status = .ok entry :=
    Lists.forall_left each fun _ entry same => ⟨entry, same⟩
  have quietTop : IsQuiet cancel shallow.asked (shallow.asked + tree.top.size) :=
    fun later _ most => quietAfter later (Nat.zero_le _) (by omega)
  obtain ⟨last, visitedTop, lastAsked⟩ := visit_through tree.top read.top
    (fun status present => known status (tree.top_statuses_sublist.subset present)) quietTop
  obtain ⟨others, notedTop, gainsTop⟩ := visit_gains visitedTop
  rw [noted_top noted notedTop, tree.leveledWarnings_top] at gainsTop
  exact ⟨entries, last, noted, gains, visitedTop, gainsTop, by omega, quietAfter⟩

variable {setting : Setting}

theorem warn_gains (progress : Progress) (kind : WarningKind) (path text : String) :
    Gains progress (progress.warn kind path text) [⟨[], [(0, ⟨kind, path, text⟩)]⟩] := by
  constructor <;> simp [Progress.warn, resultOf]

theorem visitRoot_shallow (recursive : setting.recursive = true) {whole after shallow : Progress}
    (visited : visitRoot setting root whole = .ok after)
    (trails : Trails setting.cancel shallow whole) :
    ∃ part last, part.IsOf setting.backend setting.credentials root ∧ Gains whole after [part] ∧
      visitRoot setting.shallow root shallow = .ok last ∧ Gains shallow last [part.top] ∧
      Trails setting.cancel last after := by
  cases normalizing : setting.backend.normalizeRoot root with
  | error cause =>
    rw [visitRoot_refused normalizing] at visited
    cases visited
  | ok normalized =>
    have normalizingShallow : setting.shallow.backend.normalizeRoot root = .ok normalized := normalizing
    rw [visitRoot_normalized normalizing] at visited
    rw [visitRoot_normalized normalizingShallow]
    cases looking : setting.backend.stat normalized with
    | ok status =>
      have lookingShallow : setting.shallow.backend.stat normalized = .ok status := looking
      rw [looking] at visited
      rw [lookingShallow]
      obtain ⟨tree, rfl, shown, enough, visited⟩ := walk_visits recursive visited
      obtain ⟨entries, last, noted, gains, visitedTop, gainsTop, trailsLast⟩ :=
        visit_shallow visited trails
      refine ⟨_, last, .seen normalizing looking shown noted, gains, ?_, gainsTop, trailsLast⟩
      exact (walk_top setting.shallow_recursive _ shown enough shallow).trans visitedTop
    | error cause =>
      have lookingShallow : setting.shallow.backend.stat normalized = .error cause := looking
      rw [looking] at visited
      rw [lookingShallow]
      cases cause with
      | system error =>
        cases visited
        exact ⟨_, _, .unknown normalizing looking, warn_gains .., rfl, warn_gains .., trails.fewer,
          trails.quiet⟩
      | _ => cases visited

theorem askAndVisit_shallow (recursive : setting.recursive = true) {tag : String}
    {whole after shallow : Progress} (visited : askAndVisit setting tag whole root = .ok after)
    (trails : Trails setting.cancel shallow whole) :
    ∃ part last, part.IsOf setting.backend setting.credentials root ∧ Gains whole after [part] ∧
      askAndVisit setting.shallow tag shallow root = .ok last ∧ Gains shallow last [part.top] ∧
      Trails setting.cancel last after := by
  obtain ⟨asked, asking, visited⟩ := Outcome.bind_ok visited
  obtain ⟨quiet, rfl⟩ := ask_eq_ok_iff.mp asking
  have quietBoth : IsQuiet setting.cancel 0 (whole.asked + 1) :=
    (isQuiet_append (Nat.zero_le _) (Nat.le_succ _)).mpr ⟨trails.quiet, isQuiet_succ.mpr quiet⟩
  have fewer := trails.fewer
  have askingShallow : shallow.ask setting.cancel = .ok { shallow with asked := shallow.asked + 1 } :=
    ask_eq_ok_iff.mpr ⟨quietBoth _ (Nat.zero_le _) (by omega), rfl⟩
  have trailsAsked : Trails setting.cancel { shallow with asked := shallow.asked + 1 }
      { whole with asked := whole.asked + 1 } := ⟨Nat.succ_le_succ fewer, quietBoth⟩
  obtain ⟨part, last, isOf, gains, visitedShallow, gainsTop, trailsLast⟩ :=
    visitRoot_shallow recursive (Outcome.mapError_ok visited) trailsAsked
  refine ⟨part, last, isOf, ⟨gains.entries, gains.warnings⟩, ?_, ⟨gainsTop.entries, gainsTop.warnings⟩,
    trailsLast⟩
  change (shallow.ask setting.cancel >>= fun progress => _) = _
  rw [askingShallow]
  change (visitRoot setting.shallow root _).mapError (locate root tag) = _
  rw [visitedShallow]
  rfl

theorem foldlM_shallow (recursive : setting.recursive = true) {tag : String} {roots : List String}
    {whole after shallow : Progress}
    (visited : roots.foldlM (askAndVisit setting tag) whole = .ok after)
    (trails : Trails setting.cancel shallow whole) :
    ∃ parts last, roots.Forall₂ (Part.IsOf setting.backend setting.credentials) parts ∧
      Gains whole after parts ∧ roots.foldlM (askAndVisit setting.shallow tag) shallow = .ok last ∧
      Gains shallow last (parts.map Part.top) := by
  induction roots generalizing whole shallow with
  | nil =>
    cases visited
    exact ⟨[], shallow, .nil, .refl _, rfl, .refl _⟩
  | cons root rest ih =>
    rw [List.foldlM_cons] at visited
    obtain ⟨middle, first, visited⟩ := Outcome.bind_ok visited
    obtain ⟨part, reached, isOf, gains, firstShallow, gainsTop, trailsReached⟩ :=
      askAndVisit_shallow recursive first trails
    obtain ⟨parts, last, areOf, gainsRest, visitedShallow, gainsTops⟩ := ih visited trailsReached
    refine ⟨part :: parts, last, .cons isOf areOf, gains.trans gainsRest, ?_, gainsTop.trans gainsTops⟩
    rw [List.foldlM_cons, firstShallow]
    exact visitedShallow

/-- The results of a recursive harvest and of one that is not, as they are made up of the same parts. -/
structure IsTopOf (parts : List Part) (shallow whole : HarvestResult) : Prop where
  all : whole = resultOf parts
  tops : shallow = resultOf (parts.map Part.top)
  entries : shallow.entries <+ whole.entries
  warnings : shallow.warnings <+ whole.warnings

theorem isTopOf_resultOf (parts : List Part) :
    IsTopOf parts (resultOf (parts.map Part.top)) (resultOf parts) := by
  refine ⟨rfl, rfl, ?_, ?_⟩
  all_goals
    induction parts with
    | nil => exact .slnil
    | cons part rest ih => exact (List.filter_sublist.map _).append ih

theorem visitRoots_top (recursive : setting.recursive = true) {tag : String} {roots : List String}
    {whole : Progress} (visited : visitRoots setting tag roots = .ok whole) :
    ∃ parts shallow, roots.Forall₂ (Part.IsOf setting.backend setting.credentials) parts ∧
      visitRoots setting.shallow tag roots = .ok shallow ∧
      IsTopOf parts (.ofProgress shallow) (.ofProgress whole) := by
  have start : Trails setting.cancel .start .start := ⟨Nat.le_refl 0, fun asked _ most => nomatch most⟩
  obtain ⟨parts, shallow, areOf, gains, visitedShallow, gainsTop⟩ :=
    foldlM_shallow recursive visited start
  refine ⟨parts, shallow, areOf, visitedShallow, ?_⟩
  have wholeIs : HarvestResult.ofProgress whole = resultOf parts := by
    simp [HarvestResult.ofProgress, gains.entries, gains.warnings, Progress.start]
  have shallowIs : HarvestResult.ofProgress shallow = resultOf (parts.map Part.top) := by
    simp [HarvestResult.ofProgress, gainsTop.entries, gainsTop.warnings, Progress.start]
  rw [wholeIs, shallowIs]
  exact isTopOf_resultOf parts

/-- Wherever the recursive harvest goes through, the other one does, with the top of each of its parts:
    over any storage, and as it is opened and closed for a connection. -/
theorem harvest_shallow :
    (∀ {setting : Setting} {tag : String} {roots : List String} {whole : Progress},
      setting.recursive = true → visitRoots setting tag roots = .ok whole →
      ∃ parts shallow, roots.Forall₂ (Part.IsOf setting.backend setting.credentials) parts ∧
        visitRoots { setting with recursive := false } tag roots = .ok shallow ∧
        IsTopOf parts (.ofProgress shallow) (.ofProgress whole)) ∧
    ∀ {surroundings : Surroundings} {connection : Connection} {given : Option Credentials}
      {roots : List String} {cancel : Cancel} {whole : HarvestResult},
      (run surroundings connection given roots true cancel).result = .ok whole →
      ∃ backend parts shallow, connection.openIn surroundings = .ok backend ∧
        roots.Forall₂ (Part.IsOf backend (given.getD connection.credentials)) parts ∧
        (run surroundings connection given roots false cancel).result = .ok shallow ∧
        IsTopOf parts shallow whole := by
  refine ⟨fun recursive visited => visitRoots_top recursive visited, ?_⟩
  intro surroundings connection given roots cancel whole done
  obtain ⟨backend, progress, opened, visited, rfl⟩ := run_ok done
  obtain ⟨parts, shallow, areOf, visitedShallow, isTop⟩ := visitRoots_top rfl visited
  exact ⟨backend, parts, _, opened, areOf, run_through (run_chosen done) opened visitedShallow, isTop⟩

-- A directory with a file and a directory in it, each with a warning, and a root that is missing.
def nestedSetting : Setting where
  backend :=
    { Backend.bare with
      normalizeRoot := .ok
      stat := fun path =>
        if path = "/" then .ok (smallStatus path true)
        else .error (.system (.notFound path))
      list := fun path =>
        if path = "/" then
          ⟨[("/bad", "no status")], .ok [smallStatus "/a" false, smallStatus "/d" true]⟩
        else ⟨[("/d/bad", "no status")], .ok [smallStatus "/d/b" false]⟩ }
  credentials := .localFiles (.str "file:///")
  recursive := true
  cancel := .never
  limit := 4

theorem nested_goesThrough :
    ∃ whole, visitRoots nestedSetting "local" ["/", "/gone"] = .ok whole :=
  Outcome.exists_ok (by decide +kernel)

theorem harvest_shallow_nested :
    (nestedSetting.recursive = true ∧ ∃ whole,
      visitRoots nestedSetting "local" ["/", "/gone"] = .ok whole ∧ ∃ parts shallow,
        ["/", "/gone"].Forall₂
          (Part.IsOf nestedSetting.backend nestedSetting.credentials) parts ∧
        visitRoots { nestedSetting with recursive := false } "local" ["/", "/gone"] = .ok shallow ∧
        IsTopOf parts (.ofProgress shallow) (.ofProgress whole)) ∧
    ∃ whole, (run linkedSurroundings (.localFiles (.str "file:///")) none ["/"] true .never).result =
      .ok whole ∧ ∃ backend parts shallow,
        Connection.openIn linkedSurroundings (.localFiles (.str "file:///")) = .ok backend ∧
        ["/"].Forall₂ (Part.IsOf backend (.localFiles (.str "file:///"))) parts ∧
        (run linkedSurroundings (.localFiles (.str "file:///")) none ["/"] false .never).result =
          .ok shallow ∧ IsTopOf parts shallow whole := by
  obtain ⟨whole, visited⟩ := nested_goesThrough
  obtain ⟨result, done⟩ := linked_goesThrough
  exact ⟨⟨rfl, whole, visited, harvest_shallow.1 rfl visited⟩, result, done, harvest_shallow.2 done⟩

end Harvest
end HarvestPlan
