import HarvestPlan.Proofs.Harvest.Preorder
import HarvestPlan.Proofs.Storage.Below

open HarvestPlan.Path (Route IsName)

namespace HarvestPlan

open Filesystem (shownIn)

namespace Tree

variable {fs : Filesystem} {route own : Route} {node : Node}

/-- Each step down makes the node's own path longer, so that there is a last one. -/
theorem exists_below (proper : fs.IsProper) {room : Nat} {status : Status}
    (enough : ∀ other ∈ fs.nodes, (fs.parts other.path).length < own.names.length + room)
    (stands : fs.Stands route own node) (known : fs.statusOf route.path node = .ok status) :
    ∃ tree : Tree, tree.status = status ∧ tree.IsOf fs.backend := by
  induction room generalizing route own node status with
  | zero =>
    have deep := enough node stands.present
    rw [stands.path, Path.parts_route, List.length_map] at deep
    omega
  | succ room ih =>
    cases directory : status.isDirectory with
    | false => exact ⟨.file status, rfl, .file directory⟩
    | true =>
      rcases listing : fs.backend.list status.path with ⟨failed, cause | statuses⟩
      · exact ⟨.unlisted status failed cause, rfl, .unlisted directory listing⟩
      · obtain ⟨-, folder, lists⟩ := stands.folder proper known directory listing
        have each : ∀ child ∈ statuses, ∃ tree : Tree, tree.status = child ∧
            tree.IsOf fs.backend := by
          intro child present
          obtain ⟨below, name, isName, -, standsBelow, knownBelow⟩ :=
            lists.child proper stands folder present
          refine ih ?_ standsBelow knownBelow
          intro other held
          have deep := enough other held
          simp only [Route.child_names, List.length_append, List.length_singleton]
          omega
        obtain ⟨trees, rfl, shown⟩ := exists_list each
        exact ⟨.folder status failed trees, rfl, .folder directory listing shown⟩

theorem statuses_sound (proper : fs.IsProper) {tree : Tree} (shown : tree.IsOf fs.backend)
    (stands : fs.Stands route own node) (known : fs.statusOf route.path node = .ok tree.status) :
    ∀ status ∈ tree.statuses, ∃ place, fs.Reaches (route.path, node) place ∧
      fs.statusOf place.1 place.2 = .ok status := by
  induction shown generalizing route own node with
  | file plain =>
    intro status present
    rw [List.mem_singleton.mp present]
    exact ⟨_, .refl, known⟩
  | unlisted directory listing =>
    intro status present
    rw [List.mem_singleton.mp present]
    exact ⟨_, .refl, known⟩
  | @folder status failed children directory listing below ih =>
    obtain ⟨path, folder, lists⟩ := stands.folder proper known directory listing
    intro other present
    simp only [statuses, statusesAll_eq] at present
    rcases List.mem_cons.mp present with rfl | present
    · exact ⟨_, .refl, known⟩
    · obtain ⟨tree, held, present⟩ := List.mem_flatMap.mp present
      obtain ⟨child, name, isName, leads, standsChild, knownChild⟩ :=
        lists.child proper stands folder (List.mem_map_of_mem held)
      obtain ⟨place, reaches, same⟩ := ih tree held standsChild knownChild other present
      exact ⟨place, .head leads reaches, same⟩

theorem parts_of_mem (proper : fs.IsProper) {tree : Tree} (shown : tree.IsOf fs.backend)
    (stands : fs.Stands route own node) (known : fs.statusOf route.path node = .ok tree.status)
    {status : Status} (present : status ∈ tree.statuses) :
    ∃ rest, fs.parts status.path = fs.parts route.path ++ rest := by
  obtain ⟨place, reaches, same⟩ := statuses_sound proper shown stands known status present
  rw [(Filesystem.statusOf_ok same).1]
  exact reaches.parts proper stands

theorem append_lt_append {first second : List String} (less : first < second)
    (even : first.length = second.length) (rest others : List String) :
    first ++ rest < second ++ others := by
  have lex : List.Lex (· < ·) first second := less
  induction lex with
  | nil => simp at even
  | rel smaller => exact List.Lex.rel smaller
  | cons tail ih =>
    have evenTail := Nat.succ.inj even
    exact List.Lex.cons (ih tail evenTail)

theorem lt_append {first second : List String} (some : second ≠ []) : first < first ++ second := by
  obtain ⟨head, tail, rfl⟩ := List.exists_cons_of_ne_nil some
  have less : first ++ [] < first ++ head :: tail := List.append_left_lt (List.nil_lt_cons head tail)
  simpa using less

/-- The trees of a directory stand side by side: what lies in one of them goes on from its first
    name, and the first names are in order. -/
theorem siblings (proper : fs.IsProper) (stands : fs.Stands route own node)
    (directory : node.isDirectory = .ok true) {failed : List (String × String)}
    {children : List Tree} (lists : fs.Lists route node failed (children.map Tree.status)) :
    children.Pairwise fun tree other => ∀ rest others : List String,
      fs.parts tree.status.path ++ rest < fs.parts other.status.path ++ others := by
  refine (List.pairwise_map.mp lists.ordered).imp_of_mem ?_
  intro tree other held otherHeld less rest others
  obtain ⟨child, name, isName, -, -, known⟩ :=
    lists.child proper stands directory (List.mem_map_of_mem held)
  obtain ⟨otherChild, otherName, isOther, -, -, otherKnown⟩ :=
    lists.child proper stands directory (List.mem_map_of_mem otherHeld)
  refine append_lt_append less ?_ rest others
  rw [(Filesystem.statusOf_ok known).1, (Filesystem.statusOf_ok otherKnown).1]
  simp [Path.parts_route]

theorem statuses_ordered (proper : fs.IsProper) {tree : Tree} (shown : tree.IsOf fs.backend)
    (stands : fs.Stands route own node) (known : fs.statusOf route.path node = .ok tree.status) :
    tree.statuses.Pairwise fun status other => fs.parts status.path < fs.parts other.path := by
  induction shown generalizing route own node with
  | file plain => exact List.pairwise_singleton _ _
  | unlisted directory listing => exact List.pairwise_singleton _ _
  | @folder status failed children directory listing below ih =>
    obtain ⟨path, folder, lists⟩ := stands.folder proper known directory listing
    have path : status.path = route.path := path
    have apart := siblings proper stands folder lists
    have each : ∀ tree ∈ children, ∃ name : String,
        fs.parts tree.status.path = fs.parts route.path ++ [name] ∧
        tree.statuses.Pairwise (fun status other => fs.parts status.path < fs.parts other.path) ∧
        ∀ other ∈ tree.statuses, ∃ rest,
          fs.parts other.path = fs.parts tree.status.path ++ rest := by
      intro tree held
      obtain ⟨child, name, isName, -, standsChild, knownChild⟩ :=
        lists.child proper stands folder (List.mem_map_of_mem held)
      have place := (Filesystem.statusOf_ok knownChild).1
      refine ⟨String.ofList name, by simp [place, Path.parts_route],
        ih tree held standsChild knownChild, ?_⟩
      intro other present
      rw [place]
      exact parts_of_mem proper (below tree held) standsChild knownChild present
    simp only [statuses, statusesAll_eq]
    refine List.pairwise_cons.mpr ⟨?_, List.pairwise_flatMap.mpr ⟨?_, ?_⟩⟩
    · intro other present
      obtain ⟨tree, held, present⟩ := List.mem_flatMap.mp present
      obtain ⟨name, first, -, goesOn⟩ := each tree held
      obtain ⟨rest, parts⟩ := goesOn other present
      rw [parts, first, path, List.append_assoc]
      exact lt_append (by simp)
    · intro tree held
      exact (each tree held).choose_spec.2.1
    · refine apart.imp_of_mem ?_
      intro tree sibling held siblingHeld less status present other otherPresent
      obtain ⟨rest, parts⟩ := (each tree held).choose_spec.2.2 status present
      obtain ⟨others, otherParts⟩ := (each sibling siblingHeld).choose_spec.2.2 other otherPresent
      rw [parts, otherParts]
      exact less rest others

theorem paths_nodup (proper : fs.IsProper) {tree : Tree} (shown : tree.IsOf fs.backend)
    (stands : fs.Stands route own node) (known : fs.statusOf route.path node = .ok tree.status) :
    (tree.statuses.map (·.path)).Nodup := by
  refine List.pairwise_map.mpr ((statuses_ordered proper shown stands known).imp ?_)
  intro status other less same
  rw [same] at less
  exact List.lt_irrefl _ less

theorem statuses_complete (proper : fs.IsProper) {tree : Tree} (shown : tree.IsOf fs.backend)
    (read : tree.IsRead) (stands : fs.Stands route own node)
    (known : fs.statusOf route.path node = .ok tree.status) {place : String × Node}
    (reaches : fs.Reaches (route.path, node) place) :
    ∃ status ∈ tree.statuses, fs.statusOf place.1 place.2 = .ok status := by
  induction shown generalizing route own node with
  | @file status plain =>
    rcases Relation.ReflTransGen.cases_head reaches with rfl | ⟨next, leads, -⟩
    · exact ⟨status, by simp [statuses], known⟩
    · have folder := (Filesystem.statusOf_ok known).2.2
      rw [leads.1] at folder
      cases (Except.ok.inj folder).trans plain
  | @unlisted status failed cause directory listing =>
    rcases Relation.ReflTransGen.cases_head reaches with rfl | ⟨next, leads, -⟩
    · exact ⟨status, by simp [statuses], known⟩
    · cases read with
      | unlisted =>
        obtain ⟨path, -, folder⟩ := Filesystem.statusOf_ok known
        have fault := (stands.unlisted proper leads.1 (path ▸ listing)).1
        exact absurd leads.2.1 fault
  | @folder status failed children directory listing below ih =>
    obtain ⟨path, folder, lists⟩ := stands.folder proper known directory listing
    simp only [statuses, statusesAll_eq]
    rcases Relation.ReflTransGen.cases_head reaches with rfl | ⟨next, leads, further⟩
    · exact ⟨status, by simp, known⟩
    · obtain ⟨childStatus, listed, name, isName, place, standsNext, knownNext⟩ :=
        lists.next proper stands leads
      obtain ⟨tree, held, rfl⟩ := List.mem_map.mp listed
      cases read with
      | folder readBelow =>
        have start : next = ((route.child name isName).path, next.2) := by rw [← place]
        rw [start] at further
        obtain ⟨found, present, same⟩ :=
          ih tree held (readBelow tree held) standsNext knownNext further
        exact ⟨found, List.mem_cons_of_mem _ (List.mem_flatMap.mpr ⟨tree, held, present⟩), same⟩

theorem warnings_iff (proper : fs.IsProper) {tree : Tree} (shown : tree.IsOf fs.backend)
    (read : tree.IsRead) (stands : fs.Stands route own node)
    (known : fs.statusOf route.path node = .ok tree.status) (missed : String) :
    missed ∈ tree.warnings.map (·.path) ↔
      ∃ place, fs.Reaches (route.path, node) place ∧ fs.Misses place missed := by
  induction shown generalizing route own node with
  | @file status plain =>
    have folder := (Filesystem.statusOf_ok known).2.2
    rw [show (Tree.file status).status.isDirectory = false from plain] at folder
    constructor
    · intro present
      simp [warnings] at present
    · rintro ⟨place, reaches, misses⟩
      exfalso
      rcases Relation.ReflTransGen.cases_head reaches with rfl | ⟨next, leads, -⟩
      · cases folder.symm.trans misses.1
      · cases folder.symm.trans leads.1
  | @unlisted status failed cause directory listing =>
    cases read with
    | @unlisted _ _ error =>
      obtain ⟨path, -, folder⟩ := Filesystem.statusOf_ok known
      rw [show (Tree.unlisted status failed (.system error)).status = status from rfl] at path folder
      rw [directory] at folder
      obtain ⟨fault, rfl⟩ := stands.unlisted proper folder (path ▸ listing)
      simp only [warnings, readErrors, List.map_nil, List.nil_append, List.map_cons,
        List.mem_singleton]
      constructor
      · rintro rfl
        exact ⟨_, .refl, folder, .inl ⟨fault, path⟩⟩
      · rintro ⟨place, reaches, misses⟩
        rcases Relation.ReflTransGen.cases_head reaches with rfl | ⟨next, leads, -⟩
        · obtain ⟨-, ⟨-, rfl⟩ | ⟨sound, -⟩⟩ := misses
          · exact path.symm
          · exact absurd sound fault
        · exact absurd leads.2.1 fault
  | @folder status failed children directory listing below ih =>
    obtain ⟨path, folder, lists⟩ := stands.folder proper known directory listing
    cases read with
    | folder readBelow =>
      have own_ : missed ∈ (readErrors failed).map (·.path) ↔
          fs.Misses (route.path, node) missed := by
        have paths : (readErrors failed).map (·.path) = failed.map Prod.fst := by
          simp [readErrors]
        rw [paths, lists.missed]
        simp [Filesystem.Misses, folder, lists.readable]
      simp only [warnings, warningsAll_eq, List.map_append, List.mem_append, own_]
      constructor
      · rintro (misses | present)
        · exact ⟨_, .refl, misses⟩
        · obtain ⟨warning, warned, rfl⟩ := List.mem_map.mp present
          obtain ⟨tree, held, warned⟩ := List.mem_flatMap.mp warned
          obtain ⟨child, name, isName, leads, standsChild, knownChild⟩ :=
            lists.child proper stands folder (List.mem_map_of_mem held)
          obtain ⟨place, reaches, misses⟩ :=
            (ih tree held (readBelow tree held) standsChild knownChild).mp
              (List.mem_map_of_mem warned)
          exact ⟨place, .head leads reaches, misses⟩
      · rintro ⟨place, reaches, misses⟩
        rcases Relation.ReflTransGen.cases_head reaches with rfl | ⟨next, leads, further⟩
        · exact .inl misses
        · obtain ⟨childStatus, listed, name, isName, start, standsNext, knownNext⟩ :=
            lists.next proper stands leads
          obtain ⟨tree, held, rfl⟩ := List.mem_map.mp listed
          have same : next = ((route.child name isName).path, next.2) := by rw [← start]
          rw [same] at further
          have present := (ih tree held (readBelow tree held) standsNext knownNext).mpr
            ⟨place, further, misses⟩
          obtain ⟨warning, warned, rfl⟩ := List.mem_map.mp present
          exact .inr (List.mem_map_of_mem (List.mem_flatMap.mpr ⟨tree, held, warned⟩))

theorem warnings_nodup (proper : fs.IsProper) {tree : Tree} (shown : tree.IsOf fs.backend)
    (read : tree.IsRead) (stands : fs.Stands route own node)
    (known : fs.statusOf route.path node = .ok tree.status) :
    (tree.warnings.map (·.path)).Nodup := by
  induction shown generalizing route own node with
  | file plain => simp [warnings]
  | @unlisted status failed cause directory listing =>
    cases read with
    | unlisted =>
      obtain ⟨path, -, folder⟩ := Filesystem.statusOf_ok known
      have path : status.path = route.path := path
      have folder : node.isDirectory = .ok status.isDirectory := folder
      rw [directory] at folder
      obtain ⟨-, rfl⟩ := stands.unlisted proper folder (path ▸ listing)
      simp [warnings, readErrors]
  | @folder status failed children directory listing below ih =>
    obtain ⟨path, folder, lists⟩ := stands.folder proper known directory listing
    have apart := siblings proper stands folder lists
    cases read with
    | folder readBelow =>
      have each : ∀ tree ∈ children, (tree.warnings.map (·.path)).Nodup ∧
          ∀ warning ∈ tree.warnings, ∃ rest,
            fs.parts warning.path = fs.parts tree.status.path ++ rest := by
        intro tree held
        obtain ⟨child, name, isName, -, standsChild, knownChild⟩ :=
          lists.child proper stands folder (List.mem_map_of_mem held)
        refine ⟨ih tree held (readBelow tree held) standsChild knownChild, ?_⟩
        intro warning warned
        obtain ⟨place, reaches, misses⟩ := (warnings_iff proper (below tree held)
          (readBelow tree held) standsChild knownChild warning.path).mp
            (List.mem_map_of_mem warned)
        rw [(Filesystem.statusOf_ok knownChild).1]
        exact misses.parts proper standsChild reaches
      have failures : (readErrors failed).map (·.path) = failed.map Prod.fst := by
        simp [readErrors]
      simp only [warnings, warningsAll_eq, List.map_append, List.map_flatMap, failures]
      refine List.nodup_append.mpr ⟨lists.missedOnce, List.pairwise_flatMap.mpr ⟨?_, ?_⟩, ?_⟩
      · intro tree held
        exact (each tree held).1
      · refine apart.imp_of_mem ?_
        rintro tree sibling held siblingHeld less _ warned _ otherWarned alike
        obtain ⟨warning, present, rfl⟩ := List.mem_map.mp warned
        obtain ⟨other, otherPresent, rfl⟩ := List.mem_map.mp otherWarned
        obtain ⟨rest, parts⟩ := (each tree held).2 warning present
        obtain ⟨others, otherParts⟩ := (each sibling siblingHeld).2 other otherPresent
        have strict := less rest others
        rw [← parts, ← otherParts, alike] at strict
        exact List.lt_irrefl _ strict
      · rintro _ failure _ warned alike
        obtain ⟨missing, inside, faulty, rfl⟩ := (lists.missed _).mp failure
        obtain ⟨tree, held, warned⟩ := List.mem_flatMap.mp warned
        obtain ⟨warning, present, rfl⟩ := List.mem_map.mp warned
        obtain ⟨rest, parts⟩ := (each tree held).2 warning present
        obtain ⟨child, name, isName, leads, standsChild, knownChild⟩ :=
          lists.child proper stands folder (List.mem_map_of_mem held)
        obtain ⟨missingName, isMissing, shownMissing, -⟩ := stands.child proper folder inside
        rw [← alike, (Filesystem.statusOf_ok knownChild).1, shownMissing] at parts
        simp only [Path.parts_route, Route.child_names, List.map_append, List.append_assoc,
          List.append_cancel_left_eq, List.map_cons, List.map_nil, List.cons_append,
          List.nil_append, List.cons.injEq] at parts
        have same := String.ofList_injective parts.1
        subst same
        obtain ⟨-, -, childInside, sound, shownChild⟩ := leads
        have one := proper.named.child_unique route inside childInside
          (by rw [shownMissing, ← shownChild])
        rw [one] at faulty
        exact faulty sound

mutual

theorem warnings_kind (tree : Tree) : ∀ warning ∈ tree.warnings, warning.kind = .readError := by
  have failures : ∀ failed, ∀ warning ∈ readErrors failed, warning.kind = .readError := by
    intro failed warning present
    obtain ⟨failure, -, rfl⟩ := List.mem_map.mp present
    rfl
  intro warning present
  cases tree with
  | file status => cases present
  | unlisted status failed cause =>
    cases cause with
    | system error =>
      simp only [warnings] at present
      rcases List.mem_append.mp present with present | present
      · exact failures failed warning present
      · rw [List.mem_singleton.mp present]
    | _ => exact failures failed warning present
  | folder status failed children =>
    simp only [warnings] at present
    rcases List.mem_append.mp present with present | present
    · exact failures failed warning present
    · exact warningsAll_kind children warning present

theorem warningsAll_kind (trees : List Tree) :
    ∀ warning ∈ warningsAll trees, warning.kind = .readError := by
  intro warning present
  cases trees with
  | nil => cases present
  | cons tree rest =>
    simp only [warningsAll] at present
    rcases List.mem_append.mp present with present | present
    · exact warnings_kind tree warning present
    · exact warningsAll_kind rest warning present

end

end Tree
end HarvestPlan
