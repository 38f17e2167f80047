import Mathlib.Data.List.Nodup
import HarvestPlan.Proofs.Lists
import HarvestPlan.Proofs.Path.BasePaths
import HarvestPlan.Proofs.Storage.Faulted

/-!
The loss of one place: a directory that can no longer be listed, or a node that can no longer be looked
at where its parent is listed. All other listings stay as they are.
-/
open HarvestPlan.Path (Route IsName)

namespace HarvestPlan.Filesystem

/-- What another storage lists below a start where a filesystem loses one place. A hidden place is
    missing from the listing of its parent; one that is not hidden can itself no longer be listed. -/
structure Loses (fs : Filesystem) (storage : Backend) (start lost : String × Node)
    (error : SystemError) (hidden : Bool) : Prop where
  reached : fs.Reaches start lost
  below : hidden = true → lost ≠ start
  directory : hidden = false → lost.2.isDirectory = .ok true
  closed : hidden = false → storage.list lost.1 = ⟨[], .error (.system error)⟩
  unlisted : ∀ place, fs.Reaches start place → place.2.isDirectory = .ok true → place ≠ lost →
    ∀ failed other, fs.backend.list place.1 = ⟨failed, .error (.system other)⟩ →
      storage.list place.1 = ⟨failed, .error (.system other)⟩
  listed : ∀ place, fs.Reaches start place → place.2.isDirectory = .ok true → place ≠ lost →
    ∀ failed statuses, fs.backend.list place.1 = ⟨failed, .ok statuses⟩ →
      ∃ more, storage.list place.1 =
          ⟨more, .ok (statuses.filter fun status => !(hidden && status.path == lost.1))⟩ ∧
        more.Perm (failed ++ (statuses.filter fun status => hidden && status.path == lost.1).map
          fun status => (status.path, error.message))

variable {fs : Filesystem} {route own : Route} {top : Node} {lost : String × Node}

theorem Reaches.apart (proper : fs.IsProper) (stands : fs.Stands route own top)
    (reaches : fs.Reaches (route.path, top) lost) {place : String × Node}
    (reached : fs.Reaches (route.path, top) place) (other : place ≠ lost) :
    place.2.path ≠ lost.2.path :=
  fun same => other (reached.eq_of_names proper stands reaches (.inr same))

theorem Stands.list_mapNodes (proper : fs.IsProper) {touch : Node → Node}
    (light : Node.IsLight touch) {node : Node} (stands : fs.Stands route own node)
    (directory : node.isDirectory = .ok true) :
    (fs.mapNodes touch).backend.list route.path = match (touch node).listFault with
      | some fault => ⟨[], .error (fault.failure route.path)⟩
      | none =>
        let listing := (fs.mapNodes touch).listChildren route.path ((fs.childrenOf node).map touch)
        ⟨listing.failed, byName <$> listing.children⟩ := by
  have folder : (touch node).isDirectory = .ok true := by
    rw [(light.leads node).isDirectory, directory]
  have listing := (stands.mapNodes light).list_eq (proper.mapNodes light) folder
  rw [childrenOf_mapNodes light] at listing
  exact listing

theorem Stands.list_same (proper : fs.IsProper) {touch : Node → Node} (light : Node.IsLight touch)
    {node : Node} (stands : fs.Stands route own node) (directory : node.isDirectory = .ok true)
    (fault : (touch node).listFault = node.listFault)
    (seen : ∀ child ∈ fs.childrenOf node, (touch child).lstatFault = child.lstatFault) :
    (fs.mapNodes touch).backend.list route.path = fs.backend.list route.path := by
  have listing := stands.list_mapNodes proper light directory
  rw [fault, listChildren_mapNodes light route.path seen] at listing
  exact listing.trans (stands.list_eq proper directory).symm

def closing (fs : Filesystem) (node : Node) (fault : NodeFault) : Filesystem :=
  fs.mapNodes (Node.onlyAt node.path (Node.unlistable fault))

theorem unlistable_isLight (fault : NodeFault) : Node.IsLight (Node.unlistable fault) := fun _ => rfl

theorem closing_loses (proper : fs.IsProper) (stands : fs.Stands route own top)
    (reaches : fs.Reaches (route.path, top) lost) (directory : lost.2.isDirectory = .ok true)
    (number : Json.Value) (reason : String) :
    fs.Loses (fs.closing lost.2 (.system number reason)).backend (route.path, top) lost
      (.numbered number reason lost.1) false := by
  have light := Node.onlyAt_isLight (unlistable_isLight (.system number reason)) lost.2.path
  have same : ∀ place, fs.Reaches (route.path, top) place → place.2.isDirectory = .ok true →
      place ≠ lost → (fs.closing lost.2 (.system number reason)).backend.list place.1 =
        fs.backend.list place.1 := by
    intro place reached folder other
    obtain ⟨way, ownWay, -, path, standsPlace, -⟩ := reached.stands proper stands
    rw [path]
    refine standsPlace.list_same proper light folder ?_ fun child _ => ?_
    · rw [Node.onlyAt, if_neg (reaches.apart proper stands reached other)]
    · unfold Node.onlyAt
      split <;> rfl
  refine ⟨reaches, nofun, fun _ => directory, fun _ => ?_, ?_, ?_⟩
  · obtain ⟨way, ownWay, -, path, standsLost, -⟩ := reaches.stands proper stands
    have touched : (Node.onlyAt lost.2.path (Node.unlistable (.system number reason))
        lost.2).listFault = some (.system number reason) := by
      rw [Node.onlyAt, if_pos rfl]
      rfl
    rw [path, closing, standsLost.list_mapNodes proper light directory, touched]
    rfl
  · intro place reached folder other failed cause listing
    rw [same place reached folder other, listing]
  · intro place reached folder other failed statuses listing
    have all : (statuses.filter fun status => !(false && status.path == lost.1)) = statuses :=
      List.filter_eq_self.mpr fun _ _ => rfl
    have none : (statuses.filter fun status => false && status.path == lost.1) = [] :=
      List.filter_eq_nil_iff.mpr fun _ _ => nofun
    refine ⟨failed, ?_, by rw [none]; simp⟩
    rw [same place reached folder other, listing, all]

def concealing (fs : Filesystem) (node : Node) (fault : NodeFault) : Filesystem :=
  fs.mapNodes (Node.onlyAt node.path (Node.hidden fault))

theorem hidden_isLight (fault : NodeFault) : Node.IsLight (Node.hidden fault) := fun _ => rfl

theorem listChildren_append (fs : Filesystem) (path : String) (first rest : List Node) :
    fs.listChildren path (first ++ rest) = match fs.listChildren path first with
      | ⟨failed, .error cause⟩ => ⟨failed, .error cause⟩
      | ⟨failed, .ok statuses⟩ => ⟨failed ++ (fs.listChildren path rest).failed,
          (statuses ++ ·) <$> (fs.listChildren path rest).children⟩ := by
  induction first with
  | nil =>
    rcases listing : fs.listChildren path rest with ⟨failed, cause | statuses⟩ <;>
      simp [listChildren, listing, Functor.map, Except.map]
  | cons child others ih =>
    simp only [List.cons_append, listChildren, ih]
    split
    · rcases fs.listChildren path others with ⟨failed, cause | statuses⟩
      · rfl
      · rcases fs.listChildren path rest with ⟨more, cause | further⟩ <;> rfl
    · rcases fs.listChildren path others with ⟨failed, cause | statuses⟩ <;> rfl
    · rfl

theorem IsNamed.names_apart (named : fs.IsNamed) {failed : List (String × String)}
    {statuses : List Status} (listing : fs.backend.list route.path = ⟨failed, .ok statuses⟩) :
    ∀ status ∈ statuses, ∀ other ∈ statuses,
      status.name.text = other.name.text → status = other := by
  obtain ⟨shown, once⟩ := named.listed route (by rw [listing])
  intro status present other otherPresent alike
  obtain ⟨child, -, name, isName, known⟩ := shown status present
  obtain ⟨otherChild, -, otherName, isOther, otherKnown⟩ := shown other otherPresent
  obtain ⟨path, title, -⟩ := statusOf_ok known
  obtain ⟨otherPath, otherTitle, -⟩ := statusOf_ok otherKnown
  rw [title, otherTitle, Path.name_route, Path.name_route] at alike
  obtain rfl : name = otherName := String.ofList_injective alike
  exact List.inj_on_of_nodup_map once present otherPresent (by rw [path, otherPath])

theorem listChildren_concealing {path : String} {before after : List Node} {node : Node}
    (once : ((before ++ node :: after).map (·.path)).Nodup)
    (sound : node.lstatFault = none) {status : Status}
    (known : fs.statusOf (shownIn path node) node = .ok status) (number : Json.Value)
    (reason : String) {failed : List (String × String)} {statuses : List Status}
    (listing : fs.listChildren path (before ++ node :: after) = ⟨failed, .ok statuses⟩) :
    ∃ failedBefore failedAfter first last,
      failed = failedBefore ++ failedAfter ∧ statuses = first ++ status :: last ∧
      (fs.concealing node (.system number reason)).listChildren path
        ((before ++ node :: after).map
          (Node.onlyAt node.path (Node.hidden (.system number reason)))) =
        ⟨failedBefore ++ (shownIn path node,
          (SystemError.numbered number reason (shownIn path node)).message) :: failedAfter,
          .ok (first ++ last)⟩ := by
  have light := Node.onlyAt_isLight (hidden_isLight (.system number reason)) node.path
  have others : ∀ children : List Node, (∀ child ∈ children, child.path ≠ node.path) →
      (fs.concealing node (.system number reason)).listChildren path
        (children.map (Node.onlyAt node.path (Node.hidden (.system number reason)))) =
        fs.listChildren path children := by
    intro children apart
    refine listChildren_mapNodes light path fun child present => ?_
    rw [Node.onlyAt, if_neg (apart child present)]
  have touched : Node.onlyAt node.path (Node.hidden (.system number reason)) node =
      { node with lstatFault := some (.system number reason) } := by
    rw [Node.onlyAt, if_pos rfl]
    rfl
  have different := Lists.ne_of_once once
  have othersBefore := others before fun child present =>
    different child (List.mem_append_left _ present)
  have othersAfter := others after fun child present =>
    different child (List.mem_append_right _ present)
  rw [listChildren_append] at listing
  rw [List.map_append, List.map_cons, listChildren_append, othersBefore]
  rcases listingBefore : fs.listChildren path before with ⟨failedBefore, cause | first⟩
  · simp only [listingBefore] at listing
    cases listing
  · rcases listingAfter : fs.listChildren path after with ⟨failedAfter, cause | last⟩
    · simp only [shownIn] at known
      simp [listingBefore, listChildren, sound, raise, known, listingAfter, bind, Except.bind,
        Functor.map, Except.map] at listing
    · have shown := known
      simp only [shownIn] at known
      simp only [listingBefore, listChildren, sound, raise, known, listingAfter, bind, Except.bind,
        Functor.map, Except.map, Listing.mk.injEq, Except.ok.injEq] at listing
      obtain ⟨rfl, rfl⟩ := listing
      refine ⟨failedBefore, failedAfter, first, last, rfl, rfl, ?_⟩
      simp [touched, listChildren, raise, NodeFault.failure, bind, Except.bind, othersAfter,
        listingAfter, shownIn, Functor.map, Except.map]

theorem concealing_listed (proper : fs.IsProper) {node child : Node} (stands : fs.Stands route own node)
    (directory : node.isDirectory = .ok true) (inside : child ∈ fs.childrenOf node)
    (sound : child.lstatFault = none) {status : Status}
    (known : fs.statusOf (shownIn route.path child) child = .ok status) (number : Json.Value)
    (reason : String) {failed : List (String × String)} {statuses : List Status}
    (listing : fs.backend.list route.path = ⟨failed, .ok statuses⟩) :
    ∃ more, (fs.concealing child (.system number reason)).backend.list route.path =
        ⟨more, .ok (statuses.filter fun other => !(other.path == status.path))⟩ ∧
      more.Perm (failed ++
        [(status.path, (SystemError.numbered number reason status.path).message)]) ∧
      (statuses.filter fun other => other.path == status.path) = [status] := by
  have light := Node.onlyAt_isLight (hidden_isLight (.system number reason)) child.path
  obtain ⟨readable, found, sorted, went⟩ := stands.list_ok proper directory listing
  have perm : statuses.Perm found := sorted ▸ byName_perm found
  have fault : (Node.onlyAt child.path (Node.hidden (.system number reason)) node).listFault =
      none := by
    rw [← readable, Node.onlyAt]
    split <;> rfl
  have once : ((fs.childrenOf node).map (·.path)).Nodup :=
    proper.unique.sublist (List.filter_sublist.map _)
  have path : status.path = shownIn route.path child := (statusOf_ok known).1
  have relisted := stands.list_mapNodes proper light directory
  obtain ⟨before, after, split⟩ := List.append_of_mem inside
  rw [split] at went once relisted
  obtain ⟨failedBefore, failedAfter, first, last, rfl, rfl, without⟩ :=
    listChildren_concealing once sound known number reason went
  have paths : ((first ++ status :: last).map (·.path)).Nodup :=
    (perm.map _).nodup_iff.mp (proper.named.listed route (by rw [listing])).2
  have apart : ∀ one ∈ first ++ status :: last, ∀ other ∈ first ++ status :: last,
      one.name.text = other.name.text → one = other :=
    fun one present other otherPresent => proper.named.names_apart listing one
      (perm.mem_iff.mpr present) other (perm.mem_iff.mpr otherPresent)
  have kept : byName (first ++ last) =
      statuses.filter fun other => !(other.path == status.path) := by
    rw [← sorted, ← byName_filter _ apart, Lists.filter_other paths]
  refine ⟨failedBefore ++ (shownIn route.path child,
    (SystemError.numbered number reason (shownIn route.path child)).message) :: failedAfter,
    ?_, ?_, ?_⟩
  · rw [concealing, relisted, fault]
    change Listing.mk ((fs.concealing child _).listChildren route.path _).failed
      (byName <$> ((fs.concealing child _).listChildren route.path _).children) = _
    rw [without, ← kept]
    rfl
  · rw [path, List.append_assoc]
    exact (List.perm_append_singleton _ failedAfter).symm.append_left failedBefore
  · have dropped := perm.filter fun other => other.path == status.path
    rw [Lists.filter_same paths] at dropped
    exact List.perm_singleton.mp dropped

theorem concealing_elsewhere (proper : fs.IsProper) (stands : fs.Stands route own top)
    (reaches : fs.Reaches (route.path, top) lost) {place : String × Node}
    (reached : fs.Reaches (route.path, top) place) (folder : place.2.isDirectory = .ok true)
    (outside : lost.2 ∉ fs.childrenOf place.2) (fault : NodeFault) :
    (fs.concealing lost.2 fault).backend.list place.1 = fs.backend.list place.1 := by
  obtain ⟨lostWay, lostOwn, -, -, standsLost, -⟩ := reaches.stands proper stands
  obtain ⟨way, ownWay, -, path, standsPlace, -⟩ := reached.stands proper stands
  have light := Node.onlyAt_isLight (hidden_isLight fault) lost.2.path
  rw [path]
  refine standsPlace.list_same proper light folder ?_ fun child inside => ?_
  · unfold Node.onlyAt
    split <;> rfl
  · have other : child.path ≠ lost.2.path := by
      intro same
      have held := (List.mem_filter.mp inside).1
      rw [List.inj_on_of_nodup_map proper.unique held standsLost.present same] at inside
      exact outside inside
    rw [Node.onlyAt, if_neg other]

theorem Reaches.listed_apart (proper : fs.IsProper) (stands : fs.Stands route own top)
    (reaches : fs.Reaches (route.path, top) lost) {place : String × Node}
    (reached : fs.Reaches (route.path, top) place) (folder : place.2.isDirectory = .ok true)
    (outside : lost.2 ∉ fs.childrenOf place.2) {failed : List (String × String)}
    {statuses : List Status} (listing : fs.backend.list place.1 = ⟨failed, .ok statuses⟩) :
    ∀ status ∈ statuses, status.path ≠ lost.1 := by
  intro status held same
  obtain ⟨way, ownWay, -, path, standsPlace, -⟩ := reached.stands proper stands
  rw [path] at listing
  have lists := standsPlace.lists proper folder listing
  obtain ⟨child, name, isName, leads, -, knownChild⟩ :=
    lists.child proper standsPlace folder held
  rw [← path] at leads
  have found : ((way.child name isName).path, child) = lost :=
    Reaches.eq_of_names proper stands (reached.tail leads) reaches
      (.inl ((statusOf_ok knownChild).1.symm.trans same))
  exact outside (found ▸ leads.2.2.1)

theorem concealing_loses (proper : fs.IsProper) (stands : fs.Stands route own top)
    (reaches : fs.Reaches (route.path, top) lost) (below : lost ≠ (route.path, top))
    {status : Status} (known : fs.statusOf lost.1 lost.2 = .ok status) (number : Json.Value)
    (reason : String) :
    fs.Loses (fs.concealing lost.2 (.system number reason)).backend (route.path, top) lost
      (.numbered number reason lost.1) true := by
  refine ⟨reaches, fun _ => below, nofun, nofun, ?_, ?_⟩
  · intro place reached folder _ failed cause listing
    by_cases inside : lost.2 ∈ fs.childrenOf place.2
    · obtain ⟨way, ownWay, -, path, standsPlace, -⟩ := reached.stands proper stands
      have readable := (reaches.parent proper stands below reached inside).2.1
      rw [path] at listing
      exact absurd readable (standsPlace.unlisted proper folder listing).1
    · rw [concealing_elsewhere proper stands reaches reached folder inside, listing]
  · intro place reached folder _ failed statuses listing
    simp only [Bool.true_and]
    by_cases inside : lost.2 ∈ fs.childrenOf place.2
    · obtain ⟨-, -, -, sound, shown⟩ := reaches.parent proper stands below reached inside
      obtain ⟨way, ownWay, -, path, standsPlace, -⟩ := reached.stands proper stands
      have own := (statusOf_ok known).1
      rw [path] at listing shown ⊢
      rw [shown] at known
      obtain ⟨more, relisted, noted, once⟩ :=
        concealing_listed proper standsPlace folder inside sound known number reason listing
      rw [own] at relisted noted once
      refine ⟨more, relisted, ?_⟩
      rw [once]
      simpa [own] using noted
    · have others := reaches.listed_apart proper stands reached folder inside listing
      have all : (statuses.filter fun other => !(other.path == lost.1)) = statuses :=
        List.filter_eq_self.mpr fun other held => by simpa using others other held
      have none : (statuses.filter fun other => other.path == lost.1) = [] :=
        List.filter_eq_nil_iff.mpr fun other held => by simpa using others other held
      refine ⟨failed, ?_, by rw [none]; simp⟩
      rw [concealing_elsewhere proper stands reaches reached folder inside, listing, all]

end HarvestPlan.Filesystem
