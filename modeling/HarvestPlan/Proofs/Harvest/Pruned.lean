import HarvestPlan.Proofs.Harvest.LocalTree
import HarvestPlan.Proofs.Lists
import HarvestPlan.Proofs.Storage.Losses

open HarvestPlan.Path (Route IsName)

namespace HarvestPlan

open Filesystem (shownIn)
open scoped List

def Path.isBelow (top path : String) : Bool := (names top).isPrefixOf (names path)

/-- What the loss of a place leaves: all that does not lie below it, and the place itself unless it is
    hidden. -/
def Path.isSpared (lost : String) (hidden : Bool) (path : String) : Bool :=
  !isBelow lost path || (!hidden && path == lost)

namespace Tree

variable {fs : Filesystem} {route own : Route} {node : Node}

theorem isBelow_way {way : Route} {path : String} (same : path = way.path) :
    Path.isBelow route.path path = true ↔ route.names <+: way.names := by
  rw [Path.isBelow, same, Path.names_route, Path.names_route, List.isPrefixOf_iff_prefix]

theorem statuses_below (proper : fs.IsProper) {tree : Tree} (shown : tree.IsOf fs.backend)
    (stands : fs.Stands route own node) (known : fs.statusOf route.path node = .ok tree.status) :
    ∃ others, tree.statuses = tree.status :: others ∧
      ∀ status ∈ others, Path.isBelow route.path status.path = true ∧ status.path ≠ route.path := by
  have shape : ∃ others, tree.statuses = tree.status :: others := by
    cases tree with
    | file status => exact ⟨[], rfl⟩
    | unlisted status failed cause => exact ⟨[], rfl⟩
    | folder status failed children => exact ⟨_, rfl⟩
  obtain ⟨others, shape⟩ := shape
  have ordered := statuses_ordered proper shown stands known
  rw [shape, List.pairwise_cons, (Filesystem.statusOf_ok known).1] at ordered
  refine ⟨others, shape, fun status present => ⟨?_, fun same => ?_⟩⟩
  · obtain ⟨place, reaches, knownPlace⟩ := statuses_sound proper shown stands known status
      (shape ▸ List.mem_cons_of_mem _ present)
    obtain ⟨way, ownWay, rest, path, -, -, names, -⟩ := reaches.stands proper stands
    rw [isBelow_way ((Filesystem.statusOf_ok knownPlace).1.trans path), names]
    exact List.prefix_append _ _
  · have less := ordered.1 status present
    rw [same] at less
    exact List.lt_irrefl _ less

theorem warnings_below (proper : fs.IsProper) {tree : Tree} (shown : tree.IsOf fs.backend)
    (read : tree.IsRead) (stands : fs.Stands route own node)
    (known : fs.statusOf route.path node = .ok tree.status) :
    ∀ warning ∈ tree.warnings, Path.isBelow route.path warning.path = true := by
  intro warning present
  obtain ⟨place, reaches, misses⟩ :=
    (warnings_iff proper shown read stands known _).mp (List.mem_map_of_mem present)
  obtain ⟨way, rest, path, -, names⟩ := misses.way proper stands reaches
  rw [isBelow_way path, names]
  exact List.prefix_append _ _

/-- One tree is another without what a lost place takes away. -/
structure Prunes (lost message : String) (hidden : Bool) (tree pruned : Tree) : Prop where
  status : pruned.status = tree.status
  read : pruned.IsRead
  statuses : pruned.statuses =
    tree.statuses.filter fun status => Path.isSpared lost hidden status.path
  warnings : pruned.warnings.Perm
    ((tree.warnings.filter fun warning => !Path.isBelow lost warning.path) ++
      (tree.statuses.filter fun status => status.path == lost).map
        fun _ => ⟨.readError, lost, message⟩)

theorem filters_at (proper : fs.IsProper) {tree : Tree} (shown : tree.IsOf fs.backend)
    (read : tree.IsRead) (stands : fs.Stands route own node)
    (known : fs.statusOf route.path node = .ok tree.status) (hidden : Bool) :
    (tree.statuses.filter fun status => Path.isSpared route.path hidden status.path) =
        (if hidden then [] else [tree.status]) ∧
      (tree.warnings.filter fun warning => !Path.isBelow route.path warning.path) = [] ∧
      (tree.statuses.filter fun status => status.path == route.path) = [tree.status] := by
  obtain ⟨others, shape, below⟩ := statuses_below proper shown stands known
  have path := (Filesystem.statusOf_ok known).1
  have own : Path.isBelow route.path route.path = true :=
    (isBelow_way rfl).mpr List.prefix_rfl
  have gone : (others.filter fun status => Path.isSpared route.path hidden status.path) = [] := by
    refine List.filter_eq_nil_iff.mpr fun status present => ?_
    simp [Path.isSpared, below status present]
  have apart : (others.filter fun status => status.path == route.path) = [] :=
    List.filter_eq_nil_iff.mpr fun status present => by simpa using (below status present).2
  refine ⟨?_, ?_, ?_⟩
  · rw [shape, List.filter_cons, gone, path]
    cases hidden <;> simp [Path.isSpared, own]
  · refine List.filter_eq_nil_iff.mpr fun warning present => ?_
    simpa using warnings_below proper shown read stands known warning present
  · rw [shape, List.filter_cons, apart, path]
    simp

variable {storage : Backend} {start startOwn : Route} {top : Node} {lost : String × Node}
  {error : SystemError} {hidden : Bool}

theorem eq_child_of_isBelow (proper : fs.IsProper) (startStands : fs.Stands start startOwn top)
    (reaches : fs.Reaches (start.path, top) lost)
    (reached : fs.Reaches (start.path, top) (route.path, node))
    (apart : Path.isBelow lost.1 route.path = false) {name : List Char} {isName : IsName name}
    (below : Path.isBelow lost.1 (route.child name isName).path = true) :
    lost.1 = (route.child name isName).path := by
  obtain ⟨way, ownWay, rest, wayPath, -, slashes, -⟩ := reached.stands proper startStands
  obtain rfl : route = way := Route.path_injective wayPath
  obtain ⟨lostWay, lostOwn, lostRest, lostPath, -, lostSlashes, -⟩ :=
    reaches.stands proper startStands
  rw [lostPath] at apart below ⊢
  rw [isBelow_way rfl, Route.child_names, List.prefix_concat_iff] at below
  rcases below with same | leads
  · have ways : lostWay = route.child name isName := by
      ext1
      · rw [lostSlashes, ← slashes, Route.child_slashes]
      · exact same
    rw [ways]
  · rw [(isBelow_way rfl).mpr leads] at apart
    cases apart

theorem exists_pruned_at (proper : fs.IsProper)
    (loses : fs.Loses storage (start.path, top) (route.path, node) error false) {tree : Tree}
    (shown : tree.IsOf fs.backend) (read : tree.IsRead) (stands : fs.Stands route own node)
    (known : fs.statusOf route.path node = .ok tree.status) :
    ∃ pruned : Tree, pruned.IsOf storage ∧
      Prunes route.path error.message false tree pruned := by
  obtain ⟨path, -, kind⟩ := Filesystem.statusOf_ok known
  obtain ⟨spared, warned, own⟩ := filters_at proper shown read stands known false
  rw [loses.directory rfl] at kind
  refine ⟨.unlisted tree.status [] (.system error), .unlisted (Except.ok.inj kind).symm ?_,
    rfl, .unlisted, ?_, ?_⟩
  · rw [path]
    exact loses.closed rfl
  · rw [spared]
    rfl
  · rw [warned, own]
    simp [warnings, readErrors, path]

theorem prunes_leaf {tree : Tree} {lost message : String} (read : tree.IsRead)
    (single : tree.statuses = [tree.status])
    (warned : ∀ warning ∈ tree.warnings, warning.path = tree.status.path)
    (apart : Path.isBelow lost tree.status.path = false) (different : tree.status.path ≠ lost) :
    Prunes lost message hidden tree tree := by
  refine ⟨rfl, read, ?_, ?_⟩
  · simp [single, Path.isSpared, apart]
  · have all : (tree.warnings.filter fun warning => !Path.isBelow lost warning.path) =
        tree.warnings := by
      refine List.filter_eq_self.mpr fun warning present => ?_
      rw [warned warning present, apart]
      rfl
    simp [all, single, different]

section Folder

variable {message : String} {status : Status} {failed more : List (String × String)}
  {children trees : List Tree} {place : String}

theorem hides_children (children : List Tree) (place message : String) (hidden : Bool) :
    ((children.map Tree.status).filter fun status => hidden && status.path == place).map
        (fun status => (⟨.readError, status.path, message⟩ : Warning)) =
      (children.filter fun child => !!(hidden && child.status.path == place)).map
        fun _ => ⟨.readError, place, message⟩ := by
  have same : ((fun status : Status => hidden && status.path == place) ∘ Tree.status) =
      fun child => !!(hidden && child.status.path == place) := by
    funext child
    simp
  rw [List.filter_map, List.map_map, same]
  refine List.map_congr_left fun child present => ?_
  have out := (List.mem_filter.mp present).2
  simp only [Bool.not_not, Bool.and_eq_true, beq_iff_eq] at out
  simp [out.2]

def IsDropped (place : String) (hidden : Bool) (child : Tree) : Prop :=
  (child.statuses.filter fun status => Path.isSpared place hidden status.path) = [] ∧
    (child.warnings.filter fun warning => !Path.isBelow place warning.path) = [] ∧
    (child.statuses.filter fun status => status.path == place) = [child.status]

variable (dropped : ∀ child ∈ children, (!(hidden && child.status.path == place)) = false →
    IsDropped place hidden child)
  (beside : trees.Forall₂ (fun pruned child => Prunes place message hidden child pruned)
    (children.filter fun child => !(hidden && child.status.path == place)))
include dropped beside

theorem statuses_pruned (failed more : List (String × String))
    (apart : Path.isBelow place status.path = false) :
    (folder status more trees).statuses = (folder status failed children).statuses.filter
      fun status => Path.isSpared place hidden status.path := by
  have own : Path.isSpared place hidden status.path = true := by simp [Path.isSpared, apart]
  have rest : trees.flatMap statuses = children.flatMap fun child =>
      child.statuses.filter fun status => Path.isSpared place hidden status.path := by
    rw [← Lists.flatMap_filter fun child held out => (dropped child held out).1,
      List.flatMap_def, List.flatMap_def, Lists.map_eq_map beside fun _ _ same => same.statuses]
  simp [statuses, statusesAll_eq, own, rest, List.filter_flatMap]

theorem warnings_pruned (different : status.path ≠ place)
    (missed : ∀ failure ∈ failed, Path.isBelow place failure.1 = false)
    (noted : more.Perm (failed ++ ((children.map Tree.status).filter
      fun status => hidden && status.path == place).map fun status => (status.path, message))) :
    (folder status more trees).warnings.Perm
      (((folder status failed children).warnings.filter
          fun warning => !Path.isBelow place warning.path) ++
        ((folder status failed children).statuses.filter fun status => status.path == place).map
          fun _ => ⟨.readError, place, message⟩) := by
  let warning : Warning := ⟨.readError, place, message⟩
  let keeps (child : Tree) : Bool := !(hidden && child.status.path == place)
  let lostAt (child : Tree) : List Warning :=
    (child.statuses.filter fun status => status.path == place).map fun _ => warning
  let stays (child : Tree) : List Warning :=
    child.warnings.filter fun warning => !Path.isBelow place warning.path
  have failures : (readErrors more).Perm
      (readErrors failed ++ (children.filter fun child => !keeps child).map fun _ => warning) := by
    have all := noted.map fun failure => (⟨.readError, failure.1, failure.2⟩ : Warning)
    simp only [List.map_append, List.map_map, Function.comp_def] at all
    rw [hides_children] at all
    exact all
  have below : (trees.flatMap warnings).Perm
      ((children.filter keeps).flatMap fun child => stays child ++ lostAt child) :=
    Lists.flatMap_perm beside fun _ _ same => same.warnings
  have single : ∀ child ∈ children, keeps child = false →
      stays child ++ lostAt child = [warning] := by
    intro child held out
    obtain ⟨-, warned, own⟩ := dropped child held out
    simp [stays, lostAt, warned, own]
  have kept : ((readErrors failed).filter fun warning => !Path.isBelow place warning.path) =
      readErrors failed := by
    refine List.filter_eq_self.mpr fun other present => ?_
    obtain ⟨failure, held, rfl⟩ := List.mem_map.mp present
    simp [missed failure held]
  have old : (((folder status failed children).warnings.filter
        fun warning => !Path.isBelow place warning.path) ++
      ((folder status failed children).statuses.filter
        fun status => status.path == place).map fun _ => warning) =
      readErrors failed ++ (children.flatMap stays ++ children.flatMap lostAt) := by
    simp [warnings, statuses, warningsAll_eq, statusesAll_eq, kept, different, List.filter_flatMap,
      List.map_flatMap, stays, lostAt]
  have new : (folder status more trees).warnings = readErrors more ++ trees.flatMap warnings := by
    simp [warnings, warningsAll_eq]
  rw [old, new]
  calc readErrors more ++ trees.flatMap warnings
    _ ~ (readErrors failed ++ (children.filter fun child => !keeps child).map fun _ => warning) ++
        (children.filter keeps).flatMap fun child => stays child ++ lostAt child :=
      failures.append below
    _ = readErrors failed ++ (((children.filter fun child => !keeps child).map fun _ => warning) ++
        (children.filter keeps).flatMap fun child => stays child ++ lostAt child) :=
      List.append_assoc _ _ _
    _ ~ readErrors failed ++ children.flatMap fun child => stays child ++ lostAt child :=
      (Lists.flatMap_filter_perm single).append_left _
    _ ~ readErrors failed ++ (children.flatMap stays ++ children.flatMap lostAt) :=
      (List.flatMap_append_perm children stays lostAt).symm.append_left _

end Folder

theorem ne_of_apart {place : String} (apart : Path.isBelow place route.path = false) :
    route.path ≠ place := by
  rintro rfl
  rw [(isBelow_way rfl).mpr List.prefix_rfl] at apart
  cases apart

theorem missed_apart (proper : fs.IsProper) (startStands : fs.Stands start startOwn top)
    (reaches : fs.Reaches (start.path, top) lost) (stands : fs.Stands route own node)
    (reached : fs.Reaches (start.path, top) (route.path, node))
    (folder : node.isDirectory = .ok true) (apart : Path.isBelow lost.1 route.path = false)
    {failed : List (String × String)} {statuses : List Status}
    (lists : fs.Lists route node failed statuses) :
    ∀ failure ∈ failed, Path.isBelow lost.1 failure.1 = false := by
  intro failure present
  obtain ⟨child, inside, faulty, shownAs⟩ :=
    (lists.missed failure.1).mp (List.mem_map_of_mem present)
  obtain ⟨name, isName, childPath, -⟩ := stands.child proper folder inside
  rw [shownAs]
  refine Bool.eq_false_iff.mpr fun lies => ?_
  rw [childPath] at lies
  have place := eq_child_of_isBelow proper startStands reaches reached apart lies
  obtain ⟨-, -, lostInside, sound, lostShown⟩ :=
    Filesystem.Reaches.parent_of_path proper startStands reaches reached place
  have one := proper.named.child_unique route inside lostInside
    (by rw [childPath, ← place, lostShown])
  exact faulty (one ▸ sound)

theorem exists_pruned_apart (proper : fs.IsProper) (startStands : fs.Stands start startOwn top)
    (loses : fs.Loses storage (start.path, top) lost error hidden) {tree : Tree}
    (shown : tree.IsOf fs.backend) (read : tree.IsRead) (stands : fs.Stands route own node)
    (reached : fs.Reaches (start.path, top) (route.path, node))
    (known : fs.statusOf route.path node = .ok tree.status)
    (apart : Path.isBelow lost.1 route.path = false) :
    ∃ pruned : Tree, pruned.IsOf storage ∧ Prunes lost.1 error.message hidden tree pruned := by
  induction shown generalizing route own node with
  | @file status plain =>
    have path : status.path = route.path := (Filesystem.statusOf_ok known).1
    refine ⟨.file status, .file plain, prunes_leaf .file rfl (by simp [warnings]) ?_ ?_⟩
    · rw [show (Tree.file status).status.path = route.path from path, apart]
    · rw [show (Tree.file status).status.path = route.path from path]
      exact ne_of_apart apart
  | @unlisted status failed cause directory listing =>
    have path : status.path = route.path := (Filesystem.statusOf_ok known).1
    have folder : node.isDirectory = .ok status.isDirectory := (Filesystem.statusOf_ok known).2.2
    rw [directory] at folder
    cases read with
    | @unlisted _ _ cause =>
      have relisted := loses.unlisted (route.path, node) reached folder
        (fun same => ne_of_apart apart (congrArg Prod.fst same)) failed cause (path ▸ listing)
      obtain ⟨-, rfl⟩ := stands.unlisted proper folder (path ▸ listing)
      refine ⟨.unlisted status [] (.system cause), .unlisted directory (path ▸ relisted),
        prunes_leaf .unlisted rfl (by simp [warnings, readErrors, Tree.status]) ?_ ?_⟩
      · change Path.isBelow lost.1 status.path = false
        rw [path, apart]
      · change status.path ≠ lost.1
        rw [path]
        exact ne_of_apart apart
  | @folder status failed children directory listing below ih =>
    obtain ⟨-, folder, lists⟩ := stands.folder proper known directory listing
    have path : status.path = route.path := (Filesystem.statusOf_ok known).1
    cases read with
    | folder readBelow =>
      obtain ⟨more, relisted, noted⟩ := loses.listed (route.path, node) reached folder
        (fun same => ne_of_apart apart (congrArg Prod.fst same)) failed _ (path ▸ listing)
      have placed : ∀ child ∈ children, ∃ below name, ∃ isName : IsName name,
          fs.Reaches (start.path, top) ((route.child name isName).path, below) ∧
          fs.Stands (route.child name isName) (own.child name isName) below ∧
          fs.statusOf (route.child name isName).path below = .ok child.status := by
        intro child held
        obtain ⟨below, name, isName, leads, standsBelow, knownBelow⟩ :=
          lists.child proper stands folder (List.mem_map_of_mem held)
        exact ⟨below, name, isName, reached.tail leads, standsBelow, knownBelow⟩
      have dropped : ∀ child ∈ children, (!(hidden && child.status.path == lost.1)) = false →
          IsDropped lost.1 hidden child := by
        intro child held out
        obtain ⟨concealed, same⟩ : hidden = true ∧ child.status.path = lost.1 := by simpa using out
        obtain ⟨place, name, isName, -, standsChild, knownChild⟩ := placed child held
        rw [← same, (Filesystem.statusOf_ok knownChild).1, concealed]
        exact filters_at proper (below child held) (readBelow child held) standsChild knownChild true
      have kept : ∀ child ∈ children, (!(hidden && child.status.path == lost.1)) = true →
          ∃ pruned : Tree, pruned.IsOf storage ∧
            Prunes lost.1 error.message hidden child pruned := by
        intro child held stays
        obtain ⟨place, name, isName, reachedChild, standsChild, knownChild⟩ := placed child held
        have childPath := (Filesystem.statusOf_ok knownChild).1
        by_cases same : (route.child name isName).path = lost.1
        · have visible : hidden = false := by simpa [childPath, same] using stays
          obtain rfl : ((route.child name isName).path, place) = lost :=
            Filesystem.Reaches.eq_of_names proper startStands reachedChild loses.reached (.inl same)
          subst visible
          exact exists_pruned_at proper loses (below child held) (readBelow child held) standsChild
            knownChild
        · refine ih child held (readBelow child held) standsChild reachedChild knownChild ?_
          refine Bool.eq_false_iff.mpr fun lies => same ?_
          exact (eq_child_of_isBelow proper startStands loses.reached reached apart lies).symm
      obtain ⟨trees, beside⟩ : ∃ trees : List Tree, trees.Forall₂
          (fun pruned child => pruned.IsOf storage ∧
            Prunes lost.1 error.message hidden child pruned)
          (children.filter fun child => !(hidden && child.status.path == lost.1)) := by
        refine Lists.exists_beside fun child present => ?_
        obtain ⟨held, stays⟩ := List.mem_filter.mp present
        exact kept child held stays
      refine ⟨.folder status more trees, .folder directory ?_ ?_, ?_⟩
      · have statuses : trees.map Tree.status = (children.map Tree.status).filter
            fun status => !(hidden && status.path == lost.1) := by
          rw [Lists.map_eq_map beside fun _ _ same => same.2.status, List.filter_map]
          rfl
        rw [path, statuses]
        exact relisted
      · exact Lists.forall_left beside fun _ _ same => same.1
      · have missed := missed_apart proper startStands loses.reached stands reached folder apart lists
        have prunes := beside.imp fun _ _ same => same.2
        exact ⟨rfl, .folder (Lists.forall_left prunes fun _ _ same => same.read),
          statuses_pruned dropped prunes failed more (path ▸ apart),
          warnings_pruned dropped prunes (path ▸ ne_of_apart apart) missed noted⟩

theorem exists_pruned (proper : fs.IsProper) (stands : fs.Stands route own node)
    (loses : fs.Loses storage (route.path, node) lost error hidden) {tree : Tree}
    (shown : tree.IsOf fs.backend) (read : tree.IsRead)
    (known : fs.statusOf route.path node = .ok tree.status) :
    ∃ pruned : Tree, pruned.IsOf storage ∧ Prunes lost.1 error.message hidden tree pruned := by
  by_cases here : lost = (route.path, node)
  · cases hidden with
    | true => exact absurd here (loses.below rfl)
    | false =>
      subst here
      exact exists_pruned_at proper loses shown read stands known
  · refine exists_pruned_apart proper stands loses shown read stands .refl known ?_
    obtain ⟨way, ownWay, rest, path, -, slashes, names, -⟩ := loses.reached.stands proper stands
    rw [path]
    refine Bool.eq_false_iff.mpr fun lies => here ?_
    rw [isBelow_way rfl, names] at lies
    have none : rest = [] := by
      have shorter := lies.length_le
      rw [List.length_append] at shorter
      exact List.length_eq_zero_iff.mp (by omega)
    have ways : way = route := by
      ext1
      · exact slashes
      · rw [names, none, List.append_nil]
    exact loses.reached.eq_of_names proper stands .refl (.inl (by rw [path, ways]))

end Tree
end HarvestPlan
