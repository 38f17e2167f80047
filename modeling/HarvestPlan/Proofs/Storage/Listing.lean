import HarvestPlan.Proofs.Storage.ByName
import HarvestPlan.Proofs.Storage.Local

open HarvestPlan.Path (Route IsName)

namespace HarvestPlan.Filesystem

theorem statusOf_ok {fs : Filesystem} {path : String} {node : Node} {status : Status}
    (known : fs.statusOf path node = .ok status) :
    status.path = path ∧ status.name = .str (Path.name path) ∧
      node.isDirectory = .ok status.isDirectory := by
  unfold statusOf at known
  obtain ⟨bits, -, known⟩ := Outcome.bind_ok known
  obtain ⟨isDirectory, folder, known⟩ := Outcome.bind_ok known
  obtain ⟨modified, -, known⟩ := Outcome.bind_ok known
  cases known
  exact ⟨rfl, rfl, folder⟩

theorem statusOf_values {fs : Filesystem} {path : String} {node : Node} {status : Status}
    (known : fs.statusOf path node = .ok status) :
    (status.size = .int 0 ∨ status.size = node.size) ∧
      0 ≤ status.permission ∧ status.permission < 0o10000 := by
  unfold statusOf at known
  obtain ⟨bits, -, known⟩ := Outcome.bind_ok known
  obtain ⟨isDirectory, -, known⟩ := Outcome.bind_ok known
  obtain ⟨modified, -, known⟩ := Outcome.bind_ok known
  cases known
  refine ⟨?_, ?_⟩
  · cases isDirectory
    · exact .inr rfl
    · exact .inl rfl
  · simp only [Node.permission]
    omega

theorem bits_not_system {node : Node} {error : SystemError} :
    node.bits ≠ .error (.system error) := by
  unfold Node.bits
  intro failed
  split at failed
  · split at failed <;> cases failed
  · cases failed
  · cases failed

theorem isDirectory_not_system {node : Node} {error : SystemError} :
    node.isDirectory ≠ .error (.system error) :=
  fun failed => bits_not_system (Outcome.map_error failed)

theorem statusOf_not_system {fs : Filesystem} {path : String} {node : Node} {error : SystemError} :
    fs.statusOf path node ≠ .error (.system error) := by
  unfold statusOf
  intro failed
  rcases Outcome.bind_error failed with failed | ⟨bits, -, failed⟩
  · exact bits_not_system failed
  rcases Outcome.bind_error failed with failed | ⟨folder, -, failed⟩
  · exact isDirectory_not_system failed
  rcases Outcome.bind_error failed with failed | ⟨modified, -, failed⟩
  · unfold wholeMilliseconds at failed
    split at failed <;> cases failed
  · cases failed

theorem listChildren_ok {fs : Filesystem} {path : String} {children : List Node}
    {failed : List (String × String)} {statuses : List Status}
    (listing : fs.listChildren path children = ⟨failed, .ok statuses⟩) :
    (children.filter (·.lstatFault.isNone)).map
        (fun child => fs.statusOf (shownIn path child) child) = statuses.map .ok ∧
      failed.map Prod.fst = (children.filter (·.lstatFault.isSome)).map (shownIn path) := by
  induction children generalizing failed statuses with
  | nil =>
    cases listing
    exact ⟨rfl, rfl⟩
  | cons child rest ih =>
    unfold listChildren at listing
    cases fault : child.lstatFault with
    | none =>
      cases looked : fs.statusOf (shownIn path child) child with
      | error cause =>
        have other : ∀ error, cause ≠ .system error := by
          rintro error rfl
          exact statusOf_not_system looked
        simp only [shownIn] at looked
        simp only [fault, raise, looked, bind, Except.bind] at listing
        cases cause <;> simp at listing other
      | ok status =>
        rcases below : fs.listChildren path rest with ⟨failedRest, cause | statusesRest⟩
        · simp only [shownIn] at looked
          simp [fault, raise, looked, bind, Except.bind, below, Functor.map, Except.map] at listing
        · obtain ⟨shown, missed⟩ := ih below
          have same := looked
          simp only [shownIn] at looked
          simp only [fault, raise, looked, bind, Except.bind, below, Functor.map, Except.map,
            Listing.mk.injEq, Except.ok.injEq] at listing
          obtain ⟨rfl, rfl⟩ := listing
          simp [fault, same, shown, missed]
    | some fault_ =>
      cases fault_ with
      | system number reason =>
        rcases below : fs.listChildren path rest with ⟨failedRest, cause | statusesRest⟩
        · simp [fault, raise, NodeFault.failure, bind, Except.bind, below] at listing
        · obtain ⟨shown, missed⟩ := ih below
          simp only [fault, raise, NodeFault.failure, bind, Except.bind, below, Listing.mk.injEq,
            Except.ok.injEq] at listing
          obtain ⟨rfl, rfl⟩ := listing
          exact ⟨by simp [fault, shown], by simp [fault, missed, shownIn]⟩
      | fatal reason => simp [fault, raise, NodeFault.failure, bind, Except.bind] at listing
      | interrupt => simp [fault, raise, NodeFault.failure, bind, Except.bind] at listing

theorem listChildren_not_system {fs : Filesystem} {path : String} {children : List Node}
    {error : SystemError} : (fs.listChildren path children).children ≠ .error (.system error) := by
  induction children with
  | nil => simp [listChildren]
  | cons child rest ih =>
    unfold listChildren
    simp only
    split
    · intro failed
      exact ih (Outcome.map_error failed)
    · exact ih
    · rename_i cause notSystem looked
      intro failed
      exact notSystem error (Except.error.inj failed)

structure Lists (fs : Filesystem) (route : Route) (node : Node) (failed : List (String × String))
    (statuses : List Status) : Prop where
  readable : node.listFault = none
  shown : ∀ child ∈ fs.childrenOf node, child.lstatFault = none →
    ∃ status ∈ statuses, fs.statusOf (shownIn route.path child) child = .ok status
  listed : ∀ status ∈ statuses, ∃ child ∈ fs.childrenOf node, child.lstatFault = none ∧
    fs.statusOf (shownIn route.path child) child = .ok status
  missed : ∀ path, path ∈ failed.map Prod.fst ↔
    ∃ child ∈ fs.childrenOf node, child.lstatFault ≠ none ∧ path = shownIn route.path child
  missedOnce : (failed.map Prod.fst).Nodup
  ordered : statuses.Pairwise fun status other => fs.parts status.path < fs.parts other.path

theorem IsNamed.child_unique {fs : Filesystem} (named : fs.IsNamed) (route : Route) {node : Node}
    {child other : Node} (below : child ∈ fs.childrenOf node)
    (otherBelow : other ∈ fs.childrenOf node)
    (alike : shownIn route.path child = shownIn route.path other) : child = other := by
  obtain ⟨own, name, isName, single, ownPath, path, shown⟩ := named.child below
  obtain ⟨otherOwn, otherName, isOtherName, otherSingle, otherOwnPath, otherPath, otherShown⟩ :=
    named.child otherBelow
  have paths : (route.child name isName).path = (route.child otherName isOtherName).path := by
    rw [← shown, alike, otherShown]
  have same : name = otherName := by simpa using Path.names_of_path_eq paths
  subst same
  have common : own = otherOwn := by
    ext1
    · exact single.trans otherSingle.symm
    · exact Path.names_of_path_eq (ownPath.trans otherOwnPath.symm)
  subst common
  have first := find_of_mem named.unique (List.mem_filter.mp below).1
  rw [path, ← otherPath, find_of_mem named.unique (List.mem_filter.mp otherBelow).1] at first
  exact (Option.some.inj first).symm

theorem IsNamed.shown_nodup {fs : Filesystem} (named : fs.IsNamed) (route : Route) (node : Node) :
    ((fs.childrenOf node).map (shownIn route.path)).Nodup := by
  have apart : (fs.childrenOf node).Pairwise fun child other => child.path ≠ other.path :=
    (List.pairwise_map.mp named.unique).filter _
  refine List.pairwise_map.mpr (apart.imp_of_mem ?_)
  intro child other below otherBelow different alike
  rw [named.child_unique route below otherBelow alike] at different
  exact different rfl

theorem parts_lt_of_name_lt {fs : Filesystem} {route : Route} {name other : List Char}
    {isName : IsName name} {isOther : IsName other}
    (less : String.ofList name < String.ofList other) :
    fs.parts (route.child name isName).path < fs.parts (route.child other isOther).path := by
  simp only [Path.parts_route, Route.child_names, List.map_append]
  exact List.append_left_lt (List.Lex.rel less)

theorem Stands.list_eq {fs : Filesystem} (proper : fs.IsProper) {route own : Route} {node : Node}
    (stands : fs.Stands route own node) (directory : node.isDirectory = .ok true) :
    fs.backend.list route.path = match node.listFault with
      | some fault => ⟨[], .error (fault.failure route.path)⟩
      | none =>
        let listing := fs.listChildren route.path (fs.childrenOf node)
        ⟨listing.failed, byName <$> listing.children⟩ := by
  have found := stands.found (proper.target_of_directory stands.present directory)
  change fs.list (Path.absolute fs.directory route.path) = _
  rw [Path.absolute_route, list, openDirectory]
  cases fault : node.listFault with
  | none => simp [found, fault, raise, directory, bind, Except.bind, pure, Except.pure]
  | some fault => simp [found, fault, raise, bind, Except.bind]

theorem paths_of_statuses {fs : Filesystem} {path : String} {children : List Node}
    {statuses : List Status}
    (looked : children.map (fun child => fs.statusOf (shownIn path child) child) =
      statuses.map .ok) : statuses.map (·.path) = children.map (shownIn path) := by
  induction children generalizing statuses with
  | nil =>
    have none : statuses = [] := by simpa using looked.symm
    simp [none]
  | cons child rest ih =>
    cases statuses with
    | nil => simp at looked
    | cons status others =>
      simp only [List.map_cons, List.cons.injEq] at looked
      rw [List.map_cons, List.map_cons, ih looked.2, (statusOf_ok looked.1).1]

theorem IsNamed.listed {fs : Filesystem} (named : fs.IsNamed) (route : Route)
    {statuses : List Status} (listing : (fs.backend.list route.path).children = .ok statuses) :
    (∀ status ∈ statuses, ∃ child ∈ fs.nodes, ∃ name, ∃ isName : IsName name,
      fs.statusOf (route.child name isName).path child = .ok status) ∧
      (statuses.map (·.path)).Nodup := by
  change (fs.list (Path.absolute fs.directory route.path)).children = _ at listing
  rw [Path.absolute_route, list] at listing
  split at listing
  · cases listing
  · rename_i node _
    obtain ⟨found, looked, sorted⟩ := Outcome.map_ok listing
    obtain ⟨shown, -⟩ := listChildren_ok
      (show fs.listChildren route.path (fs.childrenOf node) = ⟨_, .ok found⟩ by rw [← looked])
    have perm : statuses.Perm found := sorted ▸ byName_perm found
    constructor
    · intro status present
      have held : Except.ok status ∈ found.map (Except.ok (ε := Failure)) :=
        List.mem_map_of_mem (perm.mem_iff.mp present)
      rw [← shown] at held
      obtain ⟨child, below, known⟩ := List.mem_map.mp held
      have below := (List.mem_filter.mp below).1
      obtain ⟨own, name, isName, -, -, -, path⟩ := named.child below
      rw [path route] at known
      exact ⟨child, (List.mem_filter.mp below).1, name, isName, known⟩
    · rw [(perm.map _).nodup_iff, paths_of_statuses shown]
      exact (named.shown_nodup route node).sublist (List.filter_sublist.map _)

theorem Stands.list_ok {fs : Filesystem} (proper : fs.IsProper) {route own : Route} {node : Node}
    (stands : fs.Stands route own node) (directory : node.isDirectory = .ok true)
    {failed : List (String × String)} {statuses : List Status}
    (listing : fs.backend.list route.path = ⟨failed, .ok statuses⟩) :
    node.listFault = none ∧ ∃ found, byName found = statuses ∧
      fs.listChildren route.path (fs.childrenOf node) = ⟨failed, .ok found⟩ := by
  rw [stands.list_eq proper directory] at listing
  cases fault : node.listFault with
  | some fault_ =>
    simp only [fault] at listing
    cases listing
  | none =>
    simp only [fault, Listing.mk.injEq] at listing
    obtain ⟨failures, children⟩ := listing
    obtain ⟨found, looked, sorted⟩ := Outcome.map_ok children
    exact ⟨rfl, found, sorted, by rw [← failures, ← looked]⟩

theorem Stands.lists {fs : Filesystem} (proper : fs.IsProper) {route own : Route} {node : Node}
    (stands : fs.Stands route own node) (directory : node.isDirectory = .ok true)
    {failed : List (String × String)} {statuses : List Status}
    (listing : fs.backend.list route.path = ⟨failed, .ok statuses⟩) :
    fs.Lists route node failed statuses := by
  have distinct : statuses.Pairwise fun status other => status.path ≠ other.path :=
    List.pairwise_map.mp (proper.named.listed route (by rw [listing])).2
  obtain ⟨readable, found, sorted, went⟩ := stands.list_ok proper directory listing
  obtain ⟨shown, missed⟩ := listChildren_ok went
  have perm : statuses.Perm found := sorted ▸ byName_perm found
  have all := proper.named.shown_nodup route node
  have listed : ∀ status ∈ statuses, ∃ child ∈ fs.childrenOf node, child.lstatFault = none ∧
      fs.statusOf (shownIn route.path child) child = .ok status := by
    intro status present
    have held : Except.ok status ∈ found.map (Except.ok (ε := Failure)) :=
      List.mem_map_of_mem (perm.mem_iff.mp present)
    rw [← shown] at held
    obtain ⟨child, below, known⟩ := List.mem_map.mp held
    obtain ⟨below, sound⟩ := List.mem_filter.mp below
    exact ⟨child, below, by simpa using sound, known⟩
  refine ⟨readable, ?_, listed, ?_, ?_, ?_⟩
  · intro child below sound
    have held : fs.statusOf (shownIn route.path child) child ∈ found.map Except.ok := by
      rw [← shown]
      refine List.mem_map_of_mem (List.mem_filter.mpr ⟨below, ?_⟩)
      simp [sound]
    obtain ⟨status, present, known⟩ := List.mem_map.mp held
    exact ⟨status, perm.mem_iff.mpr present, known.symm⟩
  · intro path
    rw [missed, List.mem_map]
    constructor
    · rintro ⟨child, below, rfl⟩
      obtain ⟨below, faulty⟩ := List.mem_filter.mp below
      exact ⟨child, below, by simpa [Option.ne_none_iff_isSome] using faulty, rfl⟩
    · rintro ⟨child, below, faulty, rfl⟩
      refine ⟨child, List.mem_filter.mpr ⟨below, ?_⟩, rfl⟩
      simpa [Option.ne_none_iff_isSome] using faulty
  · rw [missed]
    exact all.sublist (List.filter_sublist.map _)
  · have names := byName_pairwise found
    rw [sorted] at names
    refine (names.and distinct).imp_of_mem ?_
    intro status other present otherPresent ⟨least, different⟩
    obtain ⟨child, below, -, known⟩ := listed status present
    obtain ⟨otherChild, otherBelow, -, otherKnown⟩ := listed other otherPresent
    obtain ⟨name, isName, shownChild, -⟩ := stands.child proper directory below
    obtain ⟨otherName, isOther, shownOther, -⟩ := stands.child proper directory otherBelow
    obtain ⟨path, named, -⟩ := statusOf_ok known
    obtain ⟨otherPath, otherNamed, -⟩ := statusOf_ok otherKnown
    rw [shownChild] at path named
    rw [shownOther] at otherPath otherNamed
    rw [named, otherNamed, Path.name_route, Path.name_route] at least
    rw [path, otherPath]
    apply parts_lt_of_name_lt
    by_cases less : String.ofList name < String.ofList otherName
    · exact less
    · have equal := String.le_antisymm least (String.not_lt.mp less)
      have same : name = otherName := String.ofList_injective equal
      subst same
      exact absurd (by rw [path, otherPath]) different

theorem Stands.unlisted {fs : Filesystem} (proper : fs.IsProper) {route own : Route} {node : Node}
    (stands : fs.Stands route own node) (directory : node.isDirectory = .ok true)
    {failed : List (String × String)} {error : SystemError}
    (listing : fs.backend.list route.path = ⟨failed, .error (.system error)⟩) :
    node.listFault ≠ none ∧ failed = [] := by
  rw [stands.list_eq proper directory] at listing
  cases fault : node.listFault with
  | some fault_ =>
    simp only [fault, Listing.mk.injEq] at listing
    exact ⟨by simp, listing.1.symm⟩
  | none =>
    simp only [fault, Listing.mk.injEq] at listing
    exact absurd (Outcome.map_error listing.2) listChildren_not_system

end HarvestPlan.Filesystem
