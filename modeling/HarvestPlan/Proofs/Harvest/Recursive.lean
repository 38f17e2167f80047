import Mathlib.Data.List.Forall2
import HarvestPlan.Proofs.Harvest.Opened
import HarvestPlan.Proofs.Harvest.Tree

namespace HarvestPlan.Harvest

def meet (credentials : Credentials) (cancel : Cancel) (root : String) (status : Status)
    (progress : Progress) : Except Stopped Progress := do
  let progress ← progress.ask cancel
  let entry ← stopAt progress (entryOf root credentials status)
  pure (progress.note entry)

/-- A directory that cannot be listed is warned about; a lost storage ends the walk, and so does
    anything that is no error of the system. -/
def giveUp (status : Status) (cause : Failure) (progress : Progress) : Except Stopped Progress :=
  match cause with
  | .system error => .ok (progress.warn .readError status.path error.message)
  | cause => .error ⟨cause, progress⟩

mutual

/-- The walk over a tree: the node, then the children that its listing passed over, then the trees of
    the others. -/
def visit (credentials : Credentials) (cancel : Cancel) (root : String) :
    Tree → Progress → Except Stopped Progress
  | .file status, progress => meet credentials cancel root status progress
  | .unlisted status failed cause, progress => do
    let progress ← meet credentials cancel root status progress
    giveUp status cause (progress.warnAll failed)
  | .folder status failed children, progress => do
    let progress ← meet credentials cancel root status progress
    visitAll credentials cancel root children (progress.warnAll failed)

def visitAll (credentials : Credentials) (cancel : Cancel) (root : String) :
    List Tree → Progress → Except Stopped Progress
  | [], progress => .ok progress
  | tree :: rest, progress => do
    let progress ← visit credentials cancel root tree progress
    visitAll credentials cancel root rest progress

end

/-- The walk over what a storage shows of a root. A root that is missing, or whose status cannot be
    read, is warned about; anything that is no error of the system ends the walk. -/
def visitView (credentials : Credentials) (cancel : Cancel) (root : String) :
    RootView → Progress → Except Stopped Progress
  | .refused cause, progress => .error ⟨cause, progress⟩
  | .unknown (.system error), progress =>
    .ok (progress.warn (if error.isMissing then .missingRoot else .readError) root error.message)
  | .unknown cause, progress => .error ⟨cause, progress⟩
  | .seen normalized tree, progress =>
    visit credentials cancel (treeRoot normalized tree.status) tree progress

/-- The walk over the roots in order. A storage that is lost names the root that was being walked,
    and keeps what had been noted by then. -/
def visitViews (credentials : Credentials) (cancel : Cancel) (tag : String) :
    List (String × RootView) → Progress → Except Stopped Progress
  | [], progress => .ok progress
  | (root, view) :: rest, progress => do
    let progress ← progress.ask cancel
    let progress ←
      (visitView credentials cancel root view progress).mapError (locate root tag)
    visitViews credentials cancel tag rest progress

theorem walk_cons (setting : Setting) (root : String) (limit : Nat) (status : Status) (depth : Nat)
    (pending : List (Status × Nat)) (progress : Progress) :
    walk setting root (limit + 1) ((status, depth) :: pending) progress =
      meet setting.credentials setting.cancel root status progress >>= fun progress =>
        expand setting status depth progress >>= fun (children, progress) =>
          walk setting root limit (children ++ pending) progress := by
  simp only [walk, meet, bind_assoc, pure_bind]

theorem expand_passed {setting : Setting} {status : Status} {depth : Nat}
    (passed : isListed setting status depth = false) (progress : Progress) :
    expand setting status depth progress = .ok ([], progress) := by
  simp [expand, passed]

theorem expand_unlisted {setting : Setting} {status : Status} {depth : Nat}
    {failed : List (String × String)} {cause : Failure} (listed : isListed setting status depth = true)
    (listing : setting.backend.list status.path = ⟨failed, .error cause⟩) (progress : Progress) :
    expand setting status depth progress =
      giveUp status cause (progress.warnAll failed) >>= fun progress => .ok ([], progress) := by
  cases cause <;> simp [expand, listed, listing, giveUp, bind, Except.bind]

theorem expand_folder {setting : Setting} {status : Status} {depth : Nat}
    {failed : List (String × String)} {children : List Status}
    (listed : isListed setting status depth = true)
    (listing : setting.backend.list status.path = ⟨failed, .ok children⟩) (progress : Progress) :
    expand setting status depth progress =
      .ok (children.map (·, depth + 1), progress.warnAll failed) := by
  simp [expand, listed, listing]

theorem walk_children {setting : Setting} {root : String} {depth : Nat} {trees : List Tree}
    (each : ∀ tree ∈ trees, ∀ limit pending progress, tree.size ≤ limit →
      walk setting root limit ((tree.status, depth) :: pending) progress =
        visit setting.credentials setting.cancel root tree progress >>=
          walk setting root (limit - tree.size) pending)
    (limit : Nat) (pending : List (Status × Nat)) (progress : Progress)
    (enough : Tree.sizeAll trees ≤ limit) :
    walk setting root limit ((trees.map Tree.status).map (·, depth) ++ pending) progress =
      visitAll setting.credentials setting.cancel root trees progress >>=
        walk setting root (limit - Tree.sizeAll trees) pending := by
  induction trees generalizing limit progress with
  | nil => rfl
  | cons tree rest ih =>
    simp only [Tree.sizeAll] at enough
    have first := each tree (by simp) limit ((rest.map Tree.status).map (·, depth) ++ pending)
      progress (by omega)
    simp only [List.map_cons, List.cons_append, first, visitAll, Tree.sizeAll, bind_assoc]
    congr 1
    funext reached
    rw [ih (fun other present => each other (List.mem_cons_of_mem _ present)) _ _ (by omega),
      Nat.sub_sub]

/-- Walking the pending nodes from the front, a recursive walk first goes over the whole tree of the
    front node and then over the others. -/
theorem walk_tree {setting : Setting} (root : String) (recursive : setting.recursive = true)
    {tree : Tree} (shown : tree.IsOf setting.backend) (depth limit : Nat)
    (pending : List (Status × Nat)) (progress : Progress) (enough : tree.size ≤ limit) :
    walk setting root limit ((tree.status, depth) :: pending) progress =
      visit setting.credentials setting.cancel root tree progress >>=
        walk setting root (limit - tree.size) pending := by
  induction shown generalizing depth limit pending progress with
  | @file status plain =>
    obtain ⟨limit, rfl⟩ := Tree.exists_limit enough
    have passed : isListed setting status depth = false := by simp [isListed, plain]
    simp only [Tree.status, walk_cons, expand_passed passed, visit, Tree.size]
    rfl
  | @unlisted status failed cause directory listing =>
    obtain ⟨limit, rfl⟩ := Tree.exists_limit enough
    have listed : isListed setting status depth = true := by simp [isListed, directory, recursive]
    simp only [Tree.status, walk_cons, expand_unlisted listed listing, visit, Tree.size, bind_assoc]
    rfl
  | @folder status failed children directory listing below ih =>
    obtain ⟨limit, rfl⟩ := Tree.exists_limit enough
    simp only [Tree.size, Nat.add_le_add_iff_right] at enough
    have listed : isListed setting status depth = true := by simp [isListed, directory, recursive]
    have rest := walk_children
      (fun tree present limit pending progress => ih tree present (depth + 1) limit pending progress)
      limit pending
    simp only [Tree.status, walk_cons, expand_folder listed listing, visit, Tree.size, bind_assoc,
      Nat.add_sub_add_right]
    congr 1
    funext reached
    exact rest _ enough

theorem visitRoot_view {setting : Setting} (recursive : setting.recursive = true) {root : String}
    {view : RootView} (shown : view.IsOf setting.backend root) (enough : view.size ≤ setting.limit)
    (progress : Progress) :
    visitRoot setting root progress =
      visitView setting.credentials setting.cancel root view progress := by
  cases shown with
  | refused normalizing => exact visitRoot_refused normalizing progress
  | @unknown normalized cause normalizing looking =>
    rw [visitRoot_normalized normalizing, looking]
    cases cause <;> rfl
  | @seen normalized tree normalizing looking shown =>
    have whole := walk_tree (treeRoot normalized tree.status) recursive shown 0 setting.limit []
      progress enough
    have ends : walk setting (treeRoot normalized tree.status) (setting.limit - tree.size) [] =
        pure := by
      funext reached
      simp [walk, pure, Except.pure]
    rw [ends, bind_pure] at whole
    rw [visitRoot_normalized normalizing, looking]
    exact whole

theorem exists_views {backend : Backend} {roots : List String}
    (finite : ∀ root ∈ roots, RootView.IsFinite backend root) :
    ∃ views, roots.Forall₂ (RootView.IsOf backend) views := by
  induction roots with
  | nil => exact ⟨[], .nil⟩
  | cons root rest ih =>
    obtain ⟨view, shown⟩ := RootView.exists_of_finite (finite root (by simp))
    obtain ⟨views, shownRest⟩ := ih fun other present => finite other (List.mem_cons_of_mem _ present)
    exact ⟨view :: views, .cons shown shownRest⟩

theorem foldlM_views (setting : Setting) (tag : String) (recursive : setting.recursive = true)
    {roots : List String} {views : List RootView}
    (shown : roots.Forall₂ (RootView.IsOf setting.backend) views)
    (enough : ∀ view ∈ views, view.size ≤ setting.limit) (progress : Progress) :
    roots.foldlM (askAndVisit setting tag) progress =
      visitViews setting.credentials setting.cancel tag (roots.zip views) progress := by
  induction shown generalizing progress with
  | nil => rfl
  | @cons root view roots views shown _ ih =>
    have rest := ih fun other present => enough other (List.mem_cons_of_mem _ present)
    have first := visitRoot_view recursive shown (enough view (by simp))
    simp only [List.foldlM_cons, askAndVisit, first, List.zip_cons_cons, visitViews, bind_assoc,
      rest]

/-- A recursive harvest is the recursive walk. For every storage that is finite below all roots there
    are views of what it shows of them, and with any such views, and room for as many entries as a
    root has, the walk over pending nodes makes of them what the recursive walk does: the same
    entries and warnings in the same order, or the same failure after the same entries. Which these are
    can be read off the trees (`visitViews_leaving`). -/
theorem visitRoots_eq_visitViews (setting : Setting) (tag : String) (roots : List String)
    (recursive : setting.recursive = true)
    (finite : ∀ root ∈ roots, RootView.IsFinite setting.backend root) :
    (∃ views, roots.Forall₂ (RootView.IsOf setting.backend) views) ∧
      ∀ views limit, roots.Forall₂ (RootView.IsOf setting.backend) views →
        (∀ view ∈ views, view.size ≤ limit) →
        visitRoots { setting with limit := limit } tag roots =
          visitViews setting.credentials setting.cancel tag (roots.zip views) .start := by
  refine ⟨exists_views finite, ?_⟩
  intro views limit shown enough
  exact foldlM_views { setting with limit := limit } tag recursive shown enough .start

-- A directory with a child that cannot be looked at, a file, and a directory that cannot be listed.
def smallStatus (path : String) (isDirectory : Bool) : Status :=
  ⟨path, .str path, .int 0, 0, .str "", isDirectory, 0⟩

def smallSetting : Setting where
  backend :=
    { Backend.bare with
      normalizeRoot := .ok
      stat := fun path => .ok (smallStatus path true)
      list := fun path =>
        if path = "/" then
          ⟨[("/bad", "no status")], .ok [smallStatus "/a" false, smallStatus "/d" true]⟩
        else ⟨[], .error (.system (.plain "no listing"))⟩ }
  credentials := .localFiles (.str "file:///")
  recursive := true
  cancel := .never
  limit := 0

def smallTree : Tree :=
  .folder (smallStatus "/" true) [("/bad", "no status")]
    [.file (smallStatus "/a" false),
      .unlisted (smallStatus "/d" true) [] (.system (.plain "no listing"))]

theorem smallTree_isOf : smallTree.IsOf smallSetting.backend := by
  refine .folder rfl rfl ?_
  intro child present
  rcases List.mem_pair.mp present with rfl | rfl
  · exact .file rfl
  · exact .unlisted rfl rfl

theorem small_isFinite : RootView.IsFinite smallSetting.backend "/" := by
  intro normalized status normalizing looking
  cases normalizing
  cases looking
  refine ⟨_, fun child ⟨_, statuses, listed, present⟩ => ?_⟩
  cases listed
  rcases List.mem_pair.mp present with rfl | rfl
  · exact ⟨_, fun below ⟨directory, _⟩ => nomatch directory⟩
  · exact ⟨_, fun below ⟨_, others, listed, _⟩ => nomatch listed⟩

theorem visitRoots_eq_visitViews_small :
    smallSetting.recursive = true ∧
      (∀ root ∈ ["/"], RootView.IsFinite smallSetting.backend root) ∧
      visitRoots { smallSetting with limit := 3 } "local" ["/"] =
        visitViews smallSetting.credentials smallSetting.cancel "local"
          [("/", .seen "/" smallTree)] .start := by
  have finite : ∀ root ∈ ["/"], RootView.IsFinite smallSetting.backend root := by
    intro root present
    rw [List.mem_singleton.mp present]
    exact small_isFinite
  have walked := (visitRoots_eq_visitViews smallSetting "local" ["/"] rfl finite).2
    [.seen "/" smallTree] 3 (.cons (.seen rfl rfl smallTree_isOf) .nil) (by decide)
  exact ⟨rfl, finite, walked⟩

end HarvestPlan.Harvest
