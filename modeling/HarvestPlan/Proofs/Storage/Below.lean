import Mathlib.Logic.Relation
import HarvestPlan.Proofs.Storage.Listing

open HarvestPlan.Path (Route IsName)

namespace HarvestPlan.Filesystem

/-- One step down: from a directory that can be listed to a node in it that can be looked at. The mode
    is the node's own, so that no step follows a link. -/
def Leads (fs : Filesystem) (place below : String × Node) : Prop :=
  place.2.isDirectory = .ok true ∧ place.2.listFault = none ∧
    below.2 ∈ fs.childrenOf place.2 ∧ below.2.lstatFault = none ∧
    below.1 = shownIn place.1 below.2

def Reaches (fs : Filesystem) : String × Node → String × Node → Prop :=
  Relation.ReflTransGen fs.Leads

/-- A path that is missed at a place: the directory itself if it cannot be listed, or else a node in it
    that cannot be looked at. -/
def Misses (fs : Filesystem) (place : String × Node) (path : String) : Prop :=
  place.2.isDirectory = .ok true ∧
    (place.2.listFault ≠ none ∧ path = place.1 ∨
      place.2.listFault = none ∧
        ∃ child ∈ fs.childrenOf place.2, child.lstatFault ≠ none ∧ path = shownIn place.1 child)

theorem Reaches.stands {fs : Filesystem} (proper : fs.IsProper) {route own : Route} {node : Node}
    (stands : fs.Stands route own node) {place : String × Node}
    (reaches : fs.Reaches (route.path, node) place) :
    ∃ way ownWay : Route, ∃ rest, place.1 = way.path ∧ fs.Stands way ownWay place.2 ∧
      way.slashes = route.slashes ∧ way.names = route.names ++ rest ∧
      ownWay.names = own.names ++ rest := by
  induction reaches with
  | refl => exact ⟨route, own, [], rfl, stands, rfl, by simp, by simp⟩
  | @tail middle below _ leads ih =>
    obtain ⟨way, ownWay, rest, path, standsMiddle, slashes, names, ownNames⟩ := ih
    obtain ⟨directory, -, inside, -, shownAs⟩ := leads
    obtain ⟨name, isName, shown, standsBelow⟩ := standsMiddle.child proper directory inside
    refine ⟨way.child name isName, ownWay.child name isName, rest ++ [name], ?_, standsBelow,
      slashes, by simp [names], by simp [ownNames]⟩
    rw [shownAs, path, shown]

theorem Reaches.parts {fs : Filesystem} (proper : fs.IsProper) {route own : Route} {node : Node}
    (stands : fs.Stands route own node) {place : String × Node}
    (reaches : fs.Reaches (route.path, node) place) :
    ∃ rest, fs.parts place.1 = fs.parts route.path ++ rest := by
  obtain ⟨way, ownWay, rest, path, -, -, names, -⟩ := reaches.stands proper stands
  exact ⟨rest.map String.ofList, by simp [path, Path.parts_route, names]⟩

theorem Misses.way {fs : Filesystem} (proper : fs.IsProper) {route own : Route} {node : Node}
    (stands : fs.Stands route own node) {place : String × Node} {missed : String}
    (reaches : fs.Reaches (route.path, node) place) (misses : fs.Misses place missed) :
    ∃ way : Route, ∃ rest, missed = way.path ∧ way.slashes = route.slashes ∧
      way.names = route.names ++ rest := by
  obtain ⟨way, ownWay, rest, path, standsPlace, slashes, names, -⟩ := reaches.stands proper stands
  obtain ⟨directory, ⟨-, rfl⟩ | ⟨-, child, inside, -, rfl⟩⟩ := misses
  · exact ⟨way, rest, path, slashes, names⟩
  · obtain ⟨name, isName, shown, -⟩ := standsPlace.child proper directory inside
    exact ⟨way.child name isName, rest ++ [name], by rw [path, shown], slashes, by simp [names]⟩

theorem Misses.parts {fs : Filesystem} (proper : fs.IsProper) {route own : Route} {node : Node}
    (stands : fs.Stands route own node) {place : String × Node} {missed : String}
    (reaches : fs.Reaches (route.path, node) place) (misses : fs.Misses place missed) :
    ∃ rest, fs.parts missed = fs.parts route.path ++ rest := by
  obtain ⟨way, rest, path, -, names⟩ := misses.way proper stands reaches
  exact ⟨rest.map String.ofList, by simp [path, Path.parts_route, names]⟩

theorem Reaches.eq_of_names {fs : Filesystem} (proper : fs.IsProper) {route own : Route}
    {node : Node} (stands : fs.Stands route own node) {place other : String × Node}
    (reaches : fs.Reaches (route.path, node) place)
    (otherReaches : fs.Reaches (route.path, node) other)
    (alike : place.1 = other.1 ∨ place.2.path = other.2.path) : place = other := by
  obtain ⟨way, ownWay, rest, path, standsPlace, slashes, names, ownNames⟩ :=
    reaches.stands proper stands
  obtain ⟨otherWay, otherOwnWay, otherRest, otherPath, standsOther, otherSlashes, otherNames,
    otherOwnNames⟩ := otherReaches.stands proper stands
  have same : rest = otherRest := by
    rcases alike with shown | nodes
    · rw [path, otherPath] at shown
      simpa [names, otherNames] using Path.names_of_path_eq shown
    · rw [standsPlace.path, standsOther.path] at nodes
      simpa [ownNames, otherOwnNames] using Path.names_of_path_eq nodes
  subst same
  have ways : way = otherWay := by
    ext1
    · rw [slashes, otherSlashes]
    · rw [names, otherNames]
  have ownWays : ownWay = otherOwnWay := by
    ext1
    · rw [standsPlace.single, standsOther.single]
    · rw [ownNames, otherOwnNames]
  have nodes : place.2.path = other.2.path := by
    rw [standsPlace.path, standsOther.path, ownWays]
  have first := find_of_mem proper.unique standsPlace.present
  rw [nodes, find_of_mem proper.unique standsOther.present] at first
  exact Prod.ext (by rw [path, otherPath, ways]) (Option.some.inj first).symm

/-- The parent of a place is the only directory that its node is in. -/
theorem Reaches.parent {fs : Filesystem} (proper : fs.IsProper) {route own : Route} {node : Node}
    (stands : fs.Stands route own node) {below : String × Node}
    (reaches : fs.Reaches (route.path, node) below) (other : below ≠ (route.path, node))
    {place : String × Node} (reached : fs.Reaches (route.path, node) place)
    (inside : below.2 ∈ fs.childrenOf place.2) : fs.Leads place below := by
  rcases Relation.ReflTransGen.cases_tail reaches with same | ⟨above, reachesAbove, leads⟩
  · exact absurd same other
  · have insideAbove := leads.2.2.1
    simp only [childrenOf, List.mem_filter, beq_iff_eq] at inside insideAbove
    have paths : above.2.path = place.2.path :=
      Option.some.inj (insideAbove.2.symm.trans inside.2)
    rw [← Reaches.eq_of_names proper stands reachesAbove reached (.inr paths)]
    exact leads

theorem Reaches.parent_of_path {fs : Filesystem} (proper : fs.IsProper)
    {start startOwn route : Route} {top node : Node} (startStands : fs.Stands start startOwn top) {below : String × Node}
    (reaches : fs.Reaches (start.path, top) below)
    (reached : fs.Reaches (start.path, top) (route.path, node)) {name : List Char}
    {isName : IsName name} (path : below.1 = (route.child name isName).path) :
    fs.Leads (route.path, node) below := by
  obtain ⟨way, ownWay, rest, wayPath, -, -, names, -⟩ := reached.stands proper startStands
  obtain rfl : route = way := Route.path_injective wayPath
  rcases Relation.ReflTransGen.cases_tail reaches with rfl | ⟨above, reachesAbove, leads⟩
  · have same := Path.names_of_path_eq path
    rw [Route.child_names, names, List.append_assoc] at same
    have longer := congrArg List.length same
    simp at longer
  · obtain ⟨aboveWay, aboveOwn, aboveRest, abovePath, standsAbove, -⟩ :=
      Reaches.stands proper startStands reachesAbove
    obtain ⟨otherName, isOther, shown, -⟩ := standsAbove.child proper leads.1 leads.2.2.1
    have same : (aboveWay.child otherName isOther).path = (route.child name isName).path := by
      rw [← shown, ← abovePath, ← path, leads.2.2.2.2]
    have place : above.1 = route.path := by
      rw [abovePath, (Route.child_injective (Route.path_injective same)).1]
    rw [← Reaches.eq_of_names proper startStands reachesAbove reached (.inl place)]
    exact leads

theorem Lists.child {fs : Filesystem} (proper : fs.IsProper) {route own : Route}
    {node : Node} (stands : fs.Stands route own node) (directory : node.isDirectory = .ok true)
    {failed : List (String × String)} {statuses : List Status}
    (lists : fs.Lists route node failed statuses) {status : Status} (present : status ∈ statuses) :
    ∃ child name, ∃ isName : IsName name,
      fs.Leads (route.path, node) ((route.child name isName).path, child) ∧
      fs.Stands (route.child name isName) (own.child name isName) child ∧
      fs.statusOf (route.child name isName).path child = .ok status := by
  obtain ⟨child, inside, sound, known⟩ := lists.listed status present
  obtain ⟨name, isName, shown, standsChild⟩ := stands.child proper directory inside
  refine ⟨child, name, isName, ⟨directory, lists.readable, inside, sound, shown.symm⟩,
    standsChild, ?_⟩
  rw [← shown]
  exact known

theorem Lists.next {fs : Filesystem} (proper : fs.IsProper) {route own : Route}
    {node : Node} (stands : fs.Stands route own node) {failed : List (String × String)}
    {statuses : List Status} (lists : fs.Lists route node failed statuses) {next : String × Node}
    (leads : fs.Leads (route.path, node) next) :
    ∃ status ∈ statuses, ∃ name, ∃ isName : IsName name, next.1 = (route.child name isName).path ∧
      fs.Stands (route.child name isName) (own.child name isName) next.2 ∧
      fs.statusOf (route.child name isName).path next.2 = .ok status := by
  obtain ⟨directory, -, inside, sound, path⟩ := leads
  obtain ⟨name, isName, shown, standsNext⟩ := stands.child proper directory inside
  obtain ⟨status, present, known⟩ := lists.shown next.2 inside sound
  rw [shown] at known path
  exact ⟨status, present, name, isName, path, standsNext, known⟩

theorem Stands.folder {fs : Filesystem} (proper : fs.IsProper) {route own : Route}
    {node : Node} (stands : fs.Stands route own node) {status : Status}
    (known : fs.statusOf route.path node = .ok status) (directory : status.isDirectory = true)
    {failed : List (String × String)} {statuses : List Status}
    (listing : fs.backend.list status.path = ⟨failed, .ok statuses⟩) :
    status.path = route.path ∧ node.isDirectory = .ok true ∧
      fs.Lists route node failed statuses := by
  obtain ⟨path, -, folder⟩ := statusOf_ok known
  rw [directory] at folder
  exact ⟨path, folder, stands.lists proper folder (path ▸ listing)⟩

end HarvestPlan.Filesystem
