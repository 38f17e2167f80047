import Mathlib.Data.List.Nodup
import HarvestPlan.Proofs.Lists
import HarvestPlan.Proofs.Harvest.Ends
import HarvestPlan.Proofs.Harvest.LocalTree
import HarvestPlan.Proofs.Harvest.Opened
import HarvestPlan.Proofs.Path.BasePaths

open HarvestPlan.Path (Route)

namespace HarvestPlan

open Filesystem (shownIn)

namespace Filesystem

theorem exists_met {fs : Filesystem} (proper : fs.IsProper) {route own : Route} {node : Node}
    (stands : fs.Stands route own node) {tree : Tree} (shown : tree.IsOf fs.backend)
    (known : fs.statusOf route.path node = .ok tree.status) :
    ∃ met : List (String × Node),
      met.Forall₂ (fun place status => fs.statusOf place.1 place.2 = .ok status) tree.statuses ∧
      (∀ place ∈ met, fs.Reaches (route.path, node) place) ∧
      met.Pairwise (fun place later => fs.parts place.1 < fs.parts later.1) ∧
      (met.map (·.2.path)).Nodup := by
  obtain ⟨met, beside⟩ := Lists.exists_beside (Tree.statuses_sound proper shown stands known)
  have reached := Lists.forall_left beside fun place status same => same.1
  have statusOf := beside.imp fun place status same => same.2
  have paths : met.map (·.1) = tree.statuses.map (·.path) :=
    Lists.map_eq_map statusOf fun place status same => (statusOf_ok same).1.symm
  have ordered : met.Pairwise fun place later => fs.parts place.1 < fs.parts later.1 := by
    have grown : (tree.statuses.map (·.path)).Pairwise fun path later =>
        fs.parts path < fs.parts later :=
      List.pairwise_map.mpr (Tree.statuses_ordered proper shown stands known)
    rw [← paths] at grown
    simpa only [List.pairwise_map] using grown
  refine ⟨met, statusOf, reached, ordered, List.pairwise_map.mpr (ordered.imp_of_mem ?_)⟩
  intro place later present laterPresent less alike
  rw [(reached place present).eq_of_names proper stands (reached later laterPresent)
    (.inr alike)] at less
  exact List.lt_irrefl _ less

theorem size_le {fs : Filesystem} (proper : fs.IsProper) {route own : Route} {node : Node}
    (stands : fs.Stands route own node) {tree : Tree} (shown : tree.IsOf fs.backend)
    (known : fs.statusOf route.path node = .ok tree.status) : tree.size ≤ fs.nodes.length := by
  obtain ⟨met, statusOf, reached, -, once⟩ := exists_met proper stands shown known
  have nodes : met.map (·.2.path) ⊆ fs.nodes.map (·.path) := by
    intro path present
    obtain ⟨place, held, rfl⟩ := List.mem_map.mp present
    obtain ⟨way, ownWay, rest, -, standsPlace, -⟩ := (reached place held).stands proper stands
    exact List.mem_map_of_mem standsPlace.present
  have few := once.length_le_of_subset nodes
  rw [List.length_map, List.length_map, statusOf.length_eq] at few
  rw [tree.size_eq]
  exact few

theorem size_le_walkLimit (fs : Filesystem) {size : Nat} (few : size ≤ fs.nodes.length) :
    size ≤ fs.walkLimit := by
  have grows : fs.nodes.length + 64 < 2 ^ (fs.nodes.length + 64) := Nat.lt_two_pow_self
  have limit : fs.walkLimit = 2 ^ (fs.nodes.length + 64) := rfl
  omega

theorem stands_root {fs : Filesystem} (proper : fs.IsProper) {route : Route} {top : Node}
    (found : fs.lookup route.path = .ok top) : ∃ own : Route, fs.Stands route own top := by
  have present := lookup_mem found
  obtain ⟨own, single, path⟩ := (proper.normal top present).route
  exact ⟨own, present, single, path.symm, fun _ => found⟩

end Filesystem

namespace Harvest

/-- The entry is that of the place, and a folder just if the node itself is a directory. -/
structure Shows (fs : Filesystem) (root : String) (credentials : Credentials)
    (place : String × Node) (entry : Entry) : Prop where
  made : ∃ status, fs.statusOf place.1 place.2 = .ok status ∧
    entryOf (fs.normalizeRoot root) credentials status = .ok entry
  fullPath : entry.fullPath = .str place.1
  isFolder : ∃ directory, place.2.isDirectory = .ok directory ∧ entry.isFolder = .bool directory

structure IsComplete (fs : Filesystem) (root : String) (credentials : Credentials)
    (start : String × Node) (met : List (String × Node)) (result : HarvestResult) : Prop where
  shown : met.Forall₂ (Shows fs root credentials) result.entries
  reached : ∀ place, place ∈ met ↔ fs.Reaches start place
  once : (met.map (·.2.path)).Nodup
  ordered : met.Pairwise fun place later => fs.parts place.1 < fs.parts later.1
  kinds : ∀ warning ∈ result.warnings, warning.kind = .readError
  warned : ∀ warning ∈ result.warnings, ∃ place ∈ met, fs.Misses place warning.path
  missing : ∀ place ∈ met, place.2.isDirectory = .ok true → place.2.listFault = none →
    ∀ child ∈ fs.childrenOf place.2, (shownIn place.1 child, child) ∉ met →
      (result.warnings.map (·.path)).count (shownIn place.1 child) = 1
  unlisted : ∀ place ∈ met, place.2.isDirectory = .ok true → place.2.listFault ≠ none →
    (result.warnings.map (·.path)).count place.1 = 1

theorem isComplete_of_adds {fs : Filesystem} (proper : fs.IsProper) {route own : Route} {top : Node}
    (stands : fs.Stands route own top) {tree : Tree} (shown : tree.IsOf fs.backend)
    (read : tree.IsRead) (known : fs.statusOf route.path top = .ok tree.status) {root : String}
    {credentials : Credentials} {before after : Progress} (fresh : before.entries = #[])
    (silent : before.warnings = #[])
    (adds : Adds credentials (fs.normalizeRoot root) before after tree.statuses tree.warnings) :
    ∃ met, IsComplete fs root credentials (route.path, top) met (.ofProgress after) := by
  obtain ⟨met, statusOf, reached, ordered, once⟩ :=
    Filesystem.exists_met proper stands shown known
  obtain ⟨⟨entries, noted, each⟩, warned⟩ := adds
  simp only [fresh, silent, List.nil_append] at noted warned
  have complete : ∀ place, place ∈ met ↔ fs.Reaches (route.path, top) place := by
    intro place
    refine ⟨reached place, fun reaches => ?_⟩
    obtain ⟨status, present, same⟩ :=
      Tree.statuses_complete proper shown read stands known reaches
    obtain ⟨other, held, otherSame⟩ := Lists.exists_left statusOf present
    have alike : place.1 = other.1 := by
      rw [← (Filesystem.statusOf_ok same).1, ← (Filesystem.statusOf_ok otherSame).1]
    rw [reaches.eq_of_names proper stands (reached other held) (.inl alike)]
    exact held
  have warnings : (HarvestResult.ofProgress after).warnings = tree.warnings := warned
  have nodup := Tree.warnings_nodup proper shown read stands known
  have paths := Tree.warnings_iff proper shown read stands known
  have exactly : ∀ place ∈ met, ∀ missed, fs.Misses place missed →
      (tree.warnings.map (·.path)).count missed = 1 := by
    intro place present missed misses
    exact List.count_eq_one_of_mem nodup ((paths missed).mpr ⟨place, reached place present, misses⟩)
  refine ⟨met, ?_, complete, once, ordered, ?_, ?_, ?_, ?_⟩
  · have result : (HarvestResult.ofProgress after).entries = entries := noted
    rw [result]
    refine Lists.compose statusOf each ?_
    intro place status entry same made
    obtain ⟨-, size, basePath, -, rfl⟩ := entryOf_ok made
    obtain ⟨path, -, directory⟩ := Filesystem.statusOf_ok same
    exact ⟨⟨status, same, made⟩, by rw [path], status.isDirectory, directory, rfl⟩
  · rw [warnings]
    exact tree.warnings_kind
  · rw [warnings]
    intro warning present
    obtain ⟨place, reaches, misses⟩ := (paths warning.path).mp (List.mem_map_of_mem present)
    exact ⟨place, (complete place).mpr reaches, misses⟩
  · rw [warnings]
    intro place present directory readable child inside absent
    refine exactly place present _ ⟨directory, .inr ⟨readable, child, inside, ?_, rfl⟩⟩
    intro sound
    exact absent ((complete _).mpr
      ((reached place present).tail ⟨directory, readable, inside, sound, rfl⟩))
  · rw [warnings]
    intro place present directory fault
    exact exactly place present _ ⟨directory, .inl ⟨fault, rfl⟩⟩

theorem exists_localView {fs : Filesystem} (proper : fs.IsProper) (root : String) :
    ∃ view : RootView, view.IsOf fs.backend root ∧ view.size ≤ fs.nodes.length := by
  obtain ⟨route, absolute⟩ := Path.absolute_isRoute proper.rooted root
  have again := Filesystem.absolute_normalizeRoot absolute
  have stat : fs.backend.stat (fs.normalizeRoot root) = fs.stat route.path := by
    change fs.stat (Path.absolute fs.directory (fs.normalizeRoot root)) = _
    rw [again]
  cases looked : fs.stat route.path with
  | error cause =>
    rw [looked] at stat
    exact ⟨.unknown cause, .unknown rfl stat, Nat.zero_le _⟩
  | ok status =>
    rw [looked] at stat
    obtain ⟨top, found, looked⟩ := Outcome.bind_ok looked
    obtain ⟨-, -, known⟩ := Outcome.bind_ok looked
    obtain ⟨own, stands⟩ := Filesystem.stands_root proper found
    obtain ⟨deepest, bound⟩ :=
      Lists.exists_bound (fun other : Node => (fs.parts other.path).length) fs.nodes
    have enough : ∀ other ∈ fs.nodes,
        (fs.parts other.path).length < own.names.length + deepest := by
      intro other present
      have deep := bound other present
      omega
    obtain ⟨tree, rfl, shown⟩ := Tree.exists_below proper enough stands known
    exact ⟨.seen (fs.normalizeRoot root) tree, .seen rfl stat shown,
      Filesystem.size_le proper stands shown known⟩

theorem locate_ends {root tag : String} {stopped : Stopped} (ends : stopped.cause ≠ .unfinished) :
    (locate root tag stopped).cause ≠ .unfinished := by
  unfold locate
  split
  · exact nofun
  · exact ends

def localSetting (fs : Filesystem) (credentials : Credentials) (cancel : Cancel) : Setting :=
  ⟨fs.backend, credentials, true, cancel, fs.walkLimit⟩

theorem visitRoot_local {fs : Filesystem} {credentials : Credentials} {cancel : Cancel}
    {root : String} {view : RootView} (shown : view.IsOf fs.backend root)
    (few : view.size ≤ fs.nodes.length) (progress : Progress) :
    visitRoot (localSetting fs credentials cancel) root progress =
      visitView credentials cancel root view progress := by
  have enough : view.size ≤ (localSetting fs credentials cancel).limit := by
    simpa only [localSetting] using fs.size_le_walkLimit few
  exact @visitRoot_view (localSetting fs credentials cancel) rfl root view shown enough progress

theorem visitRoot_local_ends {fs : Filesystem} (proper : fs.IsProper) {credentials : Credentials}
    {cancel : Cancel} {root : String} {progress : Progress} {stopped : Stopped}
    (failed : visitRoot (localSetting fs credentials cancel) root progress = .error stopped) :
    stopped.cause ≠ .unfinished := by
  obtain ⟨view, shown, few⟩ := exists_localView proper root
  rw [visitRoot_local shown few] at failed
  cases shown with
  | refused normalizing => cases normalizing
  | @unknown normalized cause normalizing looking =>
    cases cause with
    | system error => cases failed
    | unfinished => exact nomatch Filesystem.stat_fails fs _ _ looking
    | _ =>
      cases failed
      exact nofun
  | seen normalizing looking shown =>
    exact visit_ends (fun path => Filesystem.list_fails fs _) shown failed

/-- The walk over a root that is a directory is the walk over a tree of the place that the root
    leads to. -/
theorem visitRoot_local_seen {fs : Filesystem} (proper : fs.IsProper) {credentials : Credentials}
    {cancel : Cancel} {root : String} {before after : Progress}
    (walked : visitRoot (localSetting fs credentials cancel) root before = .ok after)
    {status : Status} (looked : fs.stat (Path.absolute fs.directory root) = .ok status)
    (directory : status.isDirectory = true) :
    ∃ route own : Route, ∃ top, ∃ tree : Tree, Path.absolute fs.directory root = route.path ∧
      fs.lookup route.path = .ok top ∧ fs.Stands route own top ∧
      fs.statusOf route.path top = .ok tree.status ∧ tree.status = status ∧
      tree.IsOf fs.backend ∧ visit credentials cancel (fs.normalizeRoot root) tree before = .ok after := by
  obtain ⟨view, shown, few⟩ := exists_localView proper root
  rw [visitRoot_local shown few] at walked
  obtain ⟨route, absolute⟩ := Path.absolute_isRoute proper.rooted root
  have again := Filesystem.absolute_normalizeRoot absolute
  rw [absolute] at looked
  have stat : fs.backend.stat (fs.normalizeRoot root) = .ok status := by
    change fs.stat (Path.absolute fs.directory (fs.normalizeRoot root)) = _
    rw [again, looked]
  cases shown with
  | refused normalizing => cases normalizing
  | unknown normalizing looking =>
    cases normalizing
    rw [stat] at looking
    cases looking
  | @seen normalized tree normalizing looking shown =>
    cases normalizing
    rw [stat] at looking
    obtain rfl : status = tree.status := Except.ok.inj looking
    have treeRoot : treeRoot (fs.normalizeRoot root) tree.status = fs.normalizeRoot root := by
      simp [treeRoot, directory]
    simp only [visitView, treeRoot] at walked
    obtain ⟨top, found, looked⟩ := Outcome.bind_ok looked
    obtain ⟨-, -, known⟩ := Outcome.bind_ok looked
    obtain ⟨own, stands⟩ := Filesystem.stands_root proper found
    exact ⟨route, own, top, tree, absolute, found, stands, known, rfl, shown, walked⟩

theorem visitRoot_local_complete {fs : Filesystem} (proper : fs.IsProper)
    {credentials : Credentials} {cancel : Cancel} {root : String} {before after : Progress}
    (fresh : before.entries = #[]) (silent : before.warnings = #[])
    (walked : visitRoot (localSetting fs credentials cancel) root before = .ok after)
    {status : Status} (looked : fs.stat (Path.absolute fs.directory root) = .ok status)
    (directory : status.isDirectory = true) :
    ∃ top met, fs.lookup (Path.absolute fs.directory root) = .ok top ∧
      IsComplete fs root credentials (Path.absolute fs.directory root, top) met
        (.ofProgress after) := by
  obtain ⟨route, own, top, tree, absolute, found, stands, known, -, shown, walked⟩ :=
    visitRoot_local_seen proper walked looked directory
  obtain ⟨read, adds⟩ := visit_adds tree walked
  rw [absolute]
  obtain ⟨met, complete⟩ := isComplete_of_adds proper stands shown read known fresh silent adds
  exact ⟨top, met, found, complete⟩

/-- A recursive harvest of one root of a local filesystem ends. If it goes through and the root is a
    directory, its entries are those of the places that are reached from the root through directories
    that can be listed, each node once, in the order of the components of the paths; every node that
    is missing from a listed directory, and every directory that could not be listed, has one
    warning. -/
theorem localHarvest_isComplete (surroundings : Surroundings) (uri : Json.Value)
    (given : Option Credentials) (root : String) (cancel : Cancel)
    (proper : surroundings.filesystem.IsProper) :
    let fs := surroundings.filesystem
    let harvest := run surroundings (.localFiles uri) given [root] true cancel
    (∀ stopped, harvest.result = .error stopped → stopped.cause ≠ .unfinished) ∧
      ∀ status result, fs.stat (Path.absolute fs.directory root) = .ok status →
        status.isDirectory = true → harvest.result = .ok result →
        ∃ top met, fs.lookup (Path.absolute fs.directory root) = .ok top ∧
          IsComplete fs root (given.getD (.localFiles uri))
            (Path.absolute fs.directory root, top) met result := by
  intro fs harvest
  have single : ∀ credentials, visitRoots (localSetting fs credentials cancel) "local" [root] =
      askAndVisit (localSetting fs credentials cancel) "local" .start root := by
    intro credentials
    simp [visitRoots]
  constructor
  · intro stopped failed ends
    rcases run_error failed with failed | failed | ⟨backend, opened, failed⟩
    · have start := chooseCredentials_fails _ _ _ failed
      rw [ends] at start
      cases start with
      | storage own => cases own
    · have start := Connection.openLocal_fails fs uri _ failed
      rw [ends] at start
      cases start with
      | storage own => cases own
    · obtain rfl := openLocal_ok opened
      have failed := (single _).symm.trans failed
      rcases Outcome.bind_error failed with failed | ⟨asked, -, failed⟩
      · exact ask_ends failed ends
      · obtain ⟨inner, stuck, rfl⟩ := Outcome.mapError_error failed
        exact locate_ends (visitRoot_local_ends proper stuck) ends
  · intro status result looked directory done
    obtain ⟨backend, progress, opened, walked, rfl⟩ := run_ok done
    obtain rfl := openLocal_ok opened
    have walked := (single _).symm.trans walked
    obtain ⟨asked, asking, walked⟩ := Outcome.bind_ok walked
    obtain rfl := ask_ok asking
    have visited := Outcome.mapError_ok walked
    exact visitRoot_local_complete proper rfl rfl visited looked directory

-- A directory with a file that cannot be looked at and a link that leads back to it.
def linkedNode (path : String) (mode : Int) (target : Option String) (lstatFault : Option NodeFault) :
    Node := ⟨path, .int mode, .int 0, .zero false, .int 0, target, none, lstatFault, none⟩

def linkedTop : Node := linkedNode "/" 0o40755 none none

def linkedFilesystem : Filesystem where
  nodes :=
    [linkedTop, linkedNode "/b" 0o100644 none (some (.system (.int 5) "Input/output error")),
      linkedNode "/l" 0o120777 (some "/") none]
  directory := "/"
  users := []
  hasOwners := false

def linkedSurroundings : Surroundings := ⟨linkedFilesystem, ⟨none, none, [], [], []⟩⟩

def linkedTree : Tree :=
  .folder ⟨"/", .str "/", .int 0, 0, .str "", true, 0o755⟩
    [("/b", "[Errno 5] Input/output error: '/b'")]
    [.file ⟨"/l", .str "l", .int 0, 0, .str "", false, 0o777⟩]

theorem linked_isProper : linkedFilesystem.IsProper := by
  refine ⟨by decide, by decide +kernel, ?_, rfl⟩
  intro other present leads
  simp only [linkedFilesystem, List.mem_cons, List.not_mem_nil, or_false] at present
  rcases present with rfl | rfl | rfl
  · exact absurd rfl leads
  · exact absurd rfl leads
  · exact ⟨0o120777, rfl, rfl⟩

theorem linked_lists : linkedFilesystem.backend.list "/" =
    ⟨[("/b", "[Errno 5] Input/output error: '/b'")],
      .ok [⟨"/l", .str "l", .int 0, 0, .str "", false, 0o777⟩]⟩ := by
  have opened : linkedFilesystem.openDirectory "/" = .ok linkedTop := rfl
  have failed : (linkedFilesystem.listChildren "/" (linkedFilesystem.childrenOf linkedTop)).failed =
      [("/b", "[Errno 5] Input/output error: '/b'")] := by decide +kernel
  have children :
      (linkedFilesystem.listChildren "/" (linkedFilesystem.childrenOf linkedTop)).children =
        .ok [⟨"/l", .str "l", .int 0, 0, .str "", false, 0o777⟩] := by decide +kernel
  change linkedFilesystem.list (Path.absolute "/" "/") = _
  rw [show Path.absolute "/" "/" = "/" by decide +kernel, Filesystem.list, opened]
  simp only [failed, children]
  rw [show ∀ status : Status, byName <$> Except.ok (ε := Failure) [status] = .ok [status] by
    simp [byName, Functor.map, Except.map]]

theorem linked_goesThrough : ∃ result,
    (run linkedSurroundings (.localFiles (.str "file:///")) none ["/"] true .never).result =
      .ok result := by
  have shown : RootView.IsOf linkedFilesystem.backend "/" (.seen "/" linkedTree) := by
    refine .seen (by decide +kernel) (by decide +kernel) (.folder rfl linked_lists ?_)
    intro child present
    rw [List.mem_singleton.mp present]
    exact .file rfl
  have few : (RootView.seen "/" linkedTree).size ≤ linkedFilesystem.nodes.length := by decide
  obtain ⟨backend, opened⟩ : ∃ backend,
      Connection.openLocal linkedFilesystem (.str "file:///") = .ok backend :=
    Outcome.exists_ok (by decide +kernel)
  obtain rfl := openLocal_ok opened
  let credentials : Credentials := .localFiles (.str "file:///")
  obtain ⟨after, visited⟩ : ∃ after,
      visitView credentials .never "/" (.seen "/" linkedTree) ⟨#[], #[], 1⟩ = .ok after :=
    Outcome.exists_ok (by decide +kernel)
  have walked : visitRoots (localSetting linkedFilesystem credentials .never) "local" ["/"] =
      .ok after := by
    rw [← visitRoot_local shown few] at visited
    change askAndVisit _ _ _ _ >>= _ = _
    change ((visitRoot (localSetting linkedFilesystem credentials .never) "/" ⟨#[], #[], 1⟩).mapError
      (locate "/" "local") >>= fun progress => .ok progress) = _
    rw [visited]
    rfl
  have opening : Connection.openIn linkedSurroundings (.localFiles (.str "file:///")) =
      .ok linkedFilesystem.backend := opened
  have chosen : chooseCredentials (.localFiles (.str "file:///")) none = .ok credentials := by rfl
  exact ⟨.ofProgress after, run_through chosen opening walked⟩

theorem localHarvest_isComplete_linked : linkedFilesystem.IsProper ∧ ∃ result top met,
    (run linkedSurroundings (.localFiles (.str "file:///")) none ["/"] true .never).result =
      .ok result ∧
    linkedFilesystem.lookup "/" = .ok top ∧
    IsComplete linkedFilesystem "/" (.localFiles (.str "file:///")) ("/", top) met result := by
  obtain ⟨result, done⟩ := linked_goesThrough
  obtain ⟨-, complete⟩ := localHarvest_isComplete linkedSurroundings (.str "file:///") none "/"
    .never linked_isProper
  have absolute : Path.absolute "/" "/" = "/" := by decide +kernel
  obtain ⟨top, met, found, noted⟩ := complete ⟨"/", .str "/", .int 0, 0, .str "", true, 0o755⟩ result
    (by decide +kernel) rfl done
  have root : Path.absolute linkedSurroundings.filesystem.directory "/" = "/" := absolute
  rw [root] at found noted
  exact ⟨linked_isProper, result, top, met, done, found, noted⟩

end Harvest
end HarvestPlan
