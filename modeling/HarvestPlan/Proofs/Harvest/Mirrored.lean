import HarvestPlan.Proofs.Harvest.Causes
import HarvestPlan.Proofs.Harvest.Local
import HarvestPlan.Proofs.Harvest.Noted

open HarvestPlan.Path (Route IsName separator)

namespace HarvestPlan

open BasePath (Spells droppedNames)
open Harvest (Opens Meets)

namespace Filesystem

def IsSized (fs : Filesystem) : Prop :=
  ∀ node ∈ fs.nodes, ∃ size, node.size.quantity? = some size ∧ size.less (.int 0) = false

def ShowsFrom (fs : Filesystem) (start : Route) (status : Status) : Prop :=
  ∃ route : Route, ∃ node ∈ fs.nodes, route.slashes = start.slashes ∧
    start.names <+: route.names ∧ fs.statusOf route.path node = .ok status

theorem ShowsFrom.names {fs : Filesystem} {start : Route} {status : Status}
    (shows : fs.ShowsFrom start status) : start.names <+: Path.names status.path := by
  obtain ⟨route, node, -, -, leads, known⟩ := shows
  rw [(statusOf_ok known).1, Path.names_route]
  exact leads

theorem ShowsFrom.handed {fs : Filesystem} (named : fs.IsNamed) {setting : Harvest.Setting}
    (storage : setting.backend = fs.backend) {start : Route} {status : Status}
    {children : List Status} (shows : fs.ShowsFrom start status)
    (opens : Opens setting status children) :
    (∀ child ∈ children, fs.ShowsFrom start child ∧
      ∃ last, Path.names child.path = Path.names status.path ++ [last]) ∧
      (children.map fun child => Path.names child.path).Nodup := by
  rcases opens with rfl | ⟨-, listing⟩
  · simp
  · obtain ⟨route, node, -, slashes, leads, known⟩ := shows
    have path := (statusOf_ok known).1
    rw [storage, path] at listing
    obtain ⟨below, once⟩ := named.listed route listing
    have placed : ∀ child ∈ children, ∃ name, ∃ isName : IsName name,
        child.path = (route.child name isName).path := by
      intro child present
      obtain ⟨node, -, name, isName, known⟩ := below child present
      exact ⟨name, isName, (statusOf_ok known).1⟩
    constructor
    · intro child present
      obtain ⟨node, held, name, isName, known⟩ := below child present
      refine ⟨⟨route.child name isName, node, held, slashes, ?_, known⟩, name, ?_⟩
      · exact leads.trans (List.prefix_append _ _)
      · simp [(statusOf_ok known).1, path]
    · refine List.pairwise_map.mpr ((List.pairwise_map.mp once).imp_of_mem ?_)
      intro child other present otherPresent different alike
      obtain ⟨name, isName, shape⟩ := placed child present
      obtain ⟨otherName, isOther, otherShape⟩ := placed other otherPresent
      rw [shape, otherShape] at alike different
      have same : name = otherName := by simpa using alike
      subst same
      exact different rfl

/-- The names of the base path are those of the path without those of the root, the last one apart if
    the root does not end in a separator. -/
structure IsMirrored (root : String) (path : String) (entry : Entry) : Prop where
  fullPath : entry.fullPath = .str path
  below : Path.names root <+: Path.names path
  names : Path.names entry.basePath = (Path.names path).drop (droppedNames root)
  relative : entry.basePath.toList.head? ≠ some '/'
  trimmed : entry.basePath.toList.getLast? ≠ some '/'

theorem size_natural {fs : Filesystem} (sized : fs.IsSized) {path : String} {node : Node}
    (present : node ∈ fs.nodes) {status : Status} (known : fs.statusOf path node = .ok status) :
    ∃ size, status.size.quantity? = some size ∧ size.less (.int 0) = false := by
  rcases (statusOf_values known).1 with none | own
  · exact ⟨.int 0, by rw [none]; rfl, by decide⟩
  · rw [own]
    exact sized node present

theorem ShowsFrom.entry {fs : Filesystem} (sized : fs.IsSized) {start : Route} {root : String}
    (spells : Spells root start) {status : Status} (shows : fs.ShowsFrom start status)
    (credentials : Credentials) :
    ∃ entry, Harvest.entryOf root credentials status = .ok entry ∧
      IsMirrored root status.path entry := by
  obtain ⟨route, node, present, slashes, leads, known⟩ := shows
  obtain ⟨size, quantity, natural⟩ := size_natural sized present known
  have path := (statusOf_ok known).1
  have proper : ∀ name ∈ route.names.drop (droppedNames root), IsName name :=
    fun name held => route.proper name (List.mem_of_mem_drop held)
  have ends := BasePath.join_ends fun name held => (proper name held).isComponent
  have based := BasePath.compute_route spells slashes leads status.name
  obtain ⟨least, most⟩ := (statusOf_values known).2
  have small : status.permission ≤ Entry.greatestPermission := by
    have greatest : Entry.greatestPermission = 0xffff := rfl
    omega
  rw [← path] at based
  refine ⟨_, Harvest.entryOf_made credentials based (by simpa [separator] using ends.1) quantity
    natural least small, rfl, ?_, ?_, by simpa [separator] using ends.1,
    by simpa [separator] using ends.2⟩
  · rw [spells.names, path, Path.names_route]
    exact leads
  · rw [path, Path.names_route]
    exact Path.names_join proper

theorem entry_of_single {fs : Filesystem} (sized : fs.IsSized)
    (top : ∃ node, fs.find? "/" = some node ∧ node.isDirectory = .ok true) {route : Route}
    {status : Status} (looked : fs.stat route.path = .ok status)
    (plain : status.isDirectory = false) (credentials : Credentials) :
    ∃ entry, Harvest.entryOf "" credentials status = .ok entry ∧
      entry.fileName = .str entry.basePath := by
  obtain ⟨node, found, looked⟩ := Outcome.bind_ok looked
  obtain ⟨-, -, known⟩ := Outcome.bind_ok looked
  obtain ⟨path, name, kind⟩ := statusOf_ok known
  have more : route.names ≠ [] := by
    intro none
    obtain ⟨root, first, directory⟩ := top
    have whole : fs.walkParts (fs.lookupWithin 7) route.path = .ok root := by
      simp [walkParts, first, Path.parts_route, none, pure, Except.pure]
    have same : fs.walkParts (fs.lookupWithin 7) route.path = .ok node := Outcome.mapError_ok found
    rw [whole] at same
    rw [← Except.ok.inj same, directory, plain] at kind
    cases kind
  obtain ⟨names, last, shape⟩ := (List.eq_nil_or_concat route.names).resolve_left more
  have isName : IsName last := route.proper last (by simp [shape])
  have named : Path.name route.path = String.ofList last := by
    let above : Route := ⟨route.slashes, names, route.few,
      fun other held => route.proper other (by simp [shape, held])⟩
    have same : route = above.child last isName := by
      ext1
      · rfl
      · simpa [above] using shape
    rw [same, Path.name_route]
  have relative : (Path.name route.path).toList.head? ≠ some '/' := by
    rw [named, String.toList_ofList]
    intro opens
    exact isName.2.1 (List.mem_of_mem_head? opens)
  obtain ⟨size, quantity, natural⟩ := size_natural sized (lookup_mem found) known
  obtain ⟨least, most⟩ := (statusOf_values known).2
  have small : status.permission ≤ Entry.greatestPermission := by
    have greatest : Entry.greatestPermission = 0xffff := rfl
    omega
  have based : BasePath.compute status.path "" status.name = .ok (.str (Path.name route.path)) := by
    rw [name]
    rfl
  exact ⟨_, Harvest.entryOf_made credentials based relative quantity natural least small, name⟩

end Filesystem

namespace Harvest

structure Mirrors (fs : Filesystem) (root : String) (entries : List Entry) : Prop where
  missed : ∀ cause, fs.stat (Path.absolute fs.directory root) = .error cause → entries = []
  directory : ∀ status, fs.stat (Path.absolute fs.directory root) = .ok status →
    status.isDirectory = true →
      (∀ entry ∈ entries, ∃ path, Filesystem.IsMirrored (fs.normalizeRoot root) path entry) ∧
      (entries.map (·.basePath)).Nodup
  single : ∀ status, fs.stat (Path.absolute fs.directory root) = .ok status →
    status.isDirectory = false →
      entries.length ≤ 1 ∧ ∀ entry ∈ entries, entry.fileName = .str entry.basePath

theorem Meets.single {setting : Setting} {status : Status} {met : List Status}
    (meets : Meets setting [status] met) (plain : status.isDirectory = false) :
    met = [] ∨ met = [status] := by
  cases meets with
  | stop => exact .inl rfl
  | step opens further =>
    rcases opens with rfl | ⟨directory, -⟩
    · cases further
      exact .inr rfl
    · rw [plain] at directory
      cases directory

theorem drop_injective {α : Type} {start way other : List α} (leads : start <+: way)
    (otherLeads : start <+: other) {count : Nat} (few : count ≤ start.length)
    (same : way.drop count = other.drop count) : way = other := by
  obtain ⟨rest, rfl⟩ := leads
  obtain ⟨otherRest, rfl⟩ := otherLeads
  rw [List.drop_append_of_le_length few, List.drop_append_of_le_length few] at same
  rw [List.append_cancel_left same]

theorem Meets.mirrored {fs : Filesystem} (named : fs.IsNamed) (sized : fs.IsSized)
    {setting : Setting} (storage : setting.backend = fs.backend) {start : Route} {root : String}
    (spells : Spells root start) {status : Status} {met : List Status}
    (shows : fs.ShowsFrom start status) (meets : Meets setting [status] met)
    {entries : List Entry} (made : met.Forall₂
      (fun status entry => entryOf root setting.credentials status = .ok entry) entries) :
    (∀ entry ∈ entries, ∃ path, Filesystem.IsMirrored root path entry) ∧
      (entries.map (·.basePath)).Nodup := by
  have shown : ∀ other ∈ met, fs.ShowsFrom start other :=
    meets.all (fun held opens child present => ((held.handed named storage opens).1 child present).1)
      (by simpa using shows)
  have handed : ∀ {status children}, fs.ShowsFrom start status → Opens setting status children →
      (∀ child ∈ children, fs.ShowsFrom start child ∧
        ∃ last, Path.names child.path = Path.names status.path ++ [last]) ∧
        (children.map fun child => Path.names child.path).Nodup :=
    fun held opens => held.handed named storage opens
  obtain ⟨-, once⟩ := Meets.ways handed meets (by simpa using shows) (List.pairwise_singleton _ _)
  have each : met.Forall₂ (fun other entry => fs.ShowsFrom start other ∧
      Filesystem.IsMirrored root other.path entry) entries := by
    refine ((List.forall₂_and_left _ _).mpr ⟨shown, made⟩).imp ?_
    rintro other entry ⟨below, same⟩
    obtain ⟨found, sameFound, mirrored⟩ := below.entry sized spells setting.credentials
    rw [sameFound] at same
    rw [← Except.ok.inj same]
    exact ⟨below, mirrored⟩
  constructor
  · intro entry present
    obtain ⟨other, -, -, mirrored⟩ := Lists.exists_left each present
    exact ⟨other.path, mirrored⟩
  · have few : droppedNames root ≤ start.names.length := by
      rw [droppedNames, spells.names]
      split <;> omega
    have names : entries.map (fun entry => Path.names entry.basePath) =
        (met.map fun other => Path.names other.path).map (List.drop (droppedNames root)) := by
      rw [List.map_map]
      exact (Lists.map_eq_map each fun other entry same => same.2.names.symm).symm
    have apart : (entries.map fun entry => Path.names entry.basePath).Nodup := by
      rw [names]
      refine once.map_on ?_
      intro way held other otherHeld same
      obtain ⟨status, present, rfl⟩ := List.mem_map.mp held
      obtain ⟨otherStatus, otherPresent, rfl⟩ := List.mem_map.mp otherHeld
      exact drop_injective (shown status present).names (shown otherStatus otherPresent).names few same
    have split : (entries.map (·.basePath)).map Path.names =
        entries.map fun entry => Path.names entry.basePath := by simp
    exact (split ▸ apart).of_map

theorem notesRoot_mirrors {fs : Filesystem} (named : fs.IsNamed) (sized : fs.IsSized)
    (top : ∃ node, fs.find? "/" = some node ∧ node.isDirectory = .ok true) {setting : Setting}
    (storage : setting.backend = fs.backend) {root : String} {entries : List Entry}
    (notes : NotesRoot setting root entries) : Mirrors fs root entries := by
  obtain ⟨start, absolute⟩ := Path.absolute_isRoute named.rooted root
  have spells := Filesystem.normalizeRoot_spells absolute
  obtain ⟨base, met, visits, made⟩ := notes
  cases visits with
  | missed =>
    cases made
    exact ⟨fun _ _ => rfl, fun _ _ _ => by simp, fun _ _ _ => by simp⟩
  | @seen normalized status met normalizing looking meets =>
    rw [storage] at normalizing looking
    obtain rfl : fs.normalizeRoot root = normalized := Except.ok.inj normalizing
    change fs.stat (Path.absolute fs.directory (fs.normalizeRoot root)) = _ at looking
    rw [spells.absolute] at looking
    rw [← absolute] at looking
    refine ⟨fun cause failed => ?_, fun other looked directory => ?_, fun other looked plain => ?_⟩
    · rw [looking] at failed
      cases failed
    · rw [looking] at looked
      obtain rfl := Except.ok.inj looked
      obtain ⟨node, found, known⟩ := Outcome.bind_ok looking
      obtain ⟨-, -, known⟩ := Outcome.bind_ok known
      rw [absolute] at known
      have shows : fs.ShowsFrom start status :=
        ⟨start, node, Filesystem.lookup_mem found, rfl, List.prefix_rfl, known⟩
      simp only [treeRoot, directory, if_true] at made
      exact meets.mirrored named sized storage spells shows made
    · rw [looking] at looked
      obtain rfl := Except.ok.inj looked
      rw [absolute] at looking
      obtain ⟨entry, same, name⟩ :=
        Filesystem.entry_of_single sized top looking plain setting.credentials
      simp only [treeRoot, plain, Bool.false_eq_true, if_false] at made
      rcases meets.single plain with rfl | rfl
      · cases made
        simp
      · obtain ⟨noted, rest, own, nothing, rfl⟩ := List.forall₂_cons_left_iff.mp made
        cases nothing
        rw [same] at own
        rw [← Except.ok.inj own]
        simp [name]

theorem visitRoot_notOfEntry {fs : Filesystem} (named : fs.IsNamed) (sized : fs.IsSized)
    (top : ∃ node, fs.find? "/" = some node ∧ node.isDirectory = .ok true) {setting : Setting}
    (storage : setting.backend = fs.backend) {root : String} {progress : Progress}
    {stopped : Stopped} (failed : visitRoot setting root progress = .error stopped) :
    ¬stopped.cause.IsOfEntry := by
  obtain ⟨start, absolute⟩ := Path.absolute_isRoute named.rooted root
  have spells := Filesystem.normalizeRoot_spells absolute
  rcases visitRoot_error failed with normalizing | ⟨normalized, normalizing, failed⟩
  · rw [storage] at normalizing
    cases normalizing
  rw [storage] at normalizing
  obtain rfl : fs.normalizeRoot root = normalized := Except.ok.inj normalizing
  have stat : setting.backend.stat (fs.normalizeRoot root) = fs.stat start.path := by
    rw [storage]
    change fs.stat (Path.absolute fs.directory (fs.normalizeRoot root)) = _
    rw [spells.absolute]
  rw [stat] at failed
  rcases failed with ⟨looking, -⟩ | ⟨status, looking, failed⟩
  · exact (Filesystem.stat_fails fs _ _ looking).notOfEntry
  have made : ∃ Holds : Status → Prop, Holds status ∧
      (∀ {other children}, Holds other → Opens setting other children →
        ∀ child ∈ children, Holds child) ∧
      ∀ other, Holds other → ∃ entry, entryOf (treeRoot (fs.normalizeRoot root) status)
        setting.credentials other = .ok entry := by
    cases kind : status.isDirectory with
    | true =>
      obtain ⟨node, found, known⟩ := Outcome.bind_ok looking
      obtain ⟨-, -, known⟩ := Outcome.bind_ok known
      refine ⟨fs.ShowsFrom start,
        ⟨start, node, Filesystem.lookup_mem found, rfl, List.prefix_rfl, known⟩, ?_, ?_⟩
      · exact fun held opens child present => ((held.handed named storage opens).1 child present).1
      · intro other held
        simp only [treeRoot, kind, if_true]
        obtain ⟨entry, same, -⟩ := held.entry sized spells setting.credentials
        exact ⟨entry, same⟩
    | false =>
      refine ⟨(· = status), rfl, ?_, ?_⟩
      · rintro other children rfl (rfl | ⟨directory, -⟩) child present
        · cases present
        · rw [kind] at directory
          cases directory
      · rintro other rfl
        simp only [treeRoot, kind, Bool.false_eq_true, if_false]
        obtain ⟨entry, same, -⟩ :=
          Filesystem.entry_of_single sized top looking kind setting.credentials
        exact ⟨entry, same⟩
  obtain ⟨Holds, own, handed, entries⟩ := made
  have cause := walk_error handed (by simpa using own) failed
  rcases cause with cancelled | unfinished | ⟨path, listing⟩ | ⟨other, held, unmade⟩
  · rw [cancelled]
    exact fun entry => by cases entry
  · rw [unfinished]
    exact fun entry => by cases entry
  · rw [storage] at listing
    exact (Filesystem.list_fails fs _ _ listing).notOfEntry
  · obtain ⟨entry, same⟩ := entries other held
    rw [same] at unmade
    cases unmade

theorem locate_notOfEntry {root tag : String} {stopped : Stopped}
    (other : ¬stopped.cause.IsOfEntry) : ¬(locate root tag stopped).cause.IsOfEntry := by
  unfold locate
  split
  · exact fun entry => by cases entry
  · exact other

/-- In a filesystem whose top is a directory and whose sizes are not negative, a harvest of any roots
    never stops because a base path cannot be computed or an entry does not pass its checks. Of each
    root that it came to, the base paths mirror the full paths below the root. -/
theorem localHarvest_mirrors (surroundings : Surroundings) (uri : Json.Value)
    (given : Option Credentials) (roots : List String) (recursive : Bool) (cancel : Cancel)
    (named : surroundings.filesystem.IsNamed) (sized : surroundings.filesystem.IsSized)
    (top : ∃ node, surroundings.filesystem.find? "/" = some node ∧ node.isDirectory = .ok true) :
    let harvest := run surroundings (.localFiles uri) given roots recursive cancel
    (∀ stopped, harvest.result = .error stopped → ¬stopped.cause.IsOfEntry) ∧
      ∃ seen parts, seen <+: roots ∧ seen.Forall₂ (Mirrors surroundings.filesystem) parts ∧
        harvest.noted = parts.flatten ∧ ∀ result, harvest.result = .ok result → seen = roots := by
  intro harvest
  constructor
  · intro stopped failed
    rcases run_error failed with failed | failed | ⟨backend, opened, failed⟩
    · exact (chooseCredentials_fails _ _ _ failed).notOfEntry
    · exact (Connection.openLocal_fails _ uri _ failed).notOfEntry
    · obtain rfl := openLocal_ok opened
      rcases visitRoots_error failed with cancelled | ⟨root, -, before, inner, stuck, rfl⟩
      · rw [cancelled]
        exact fun entry => by cases entry
      · exact locate_notOfEntry (visitRoot_notOfEntry named sized top rfl stuck)
  · obtain ⟨seen, parts, isPrefix, each, noted, whole⟩ :=
      run_notes surroundings (.localFiles uri) given roots recursive cancel
    refine ⟨seen, parts, isPrefix, each.imp ?_, noted, whole⟩
    rintro root entries ⟨backend, opened, notes⟩
    obtain rfl := openLocal_ok opened
    exact notesRoot_mirrors named sized top rfl notes

theorem linked_isSized : linkedFilesystem.IsSized := by
  intro node present
  simp only [linkedFilesystem, List.mem_cons, List.not_mem_nil, or_false] at present
  rcases present with rfl | rfl | rfl <;> exact ⟨.int 0, rfl, by decide⟩

theorem localHarvest_mirrors_linked :
    linkedFilesystem.IsNamed ∧ linkedFilesystem.IsSized ∧
      (∃ node, linkedFilesystem.find? "/" = some node ∧ node.isDirectory = .ok true) ∧
      ∃ result, (run linkedSurroundings (.localFiles (.str "file:///")) none ["/"] true
        .never).result = .ok result ∧ Mirrors linkedFilesystem "/" result.entries := by
  have top : ∃ node, linkedFilesystem.find? "/" = some node ∧ node.isDirectory = .ok true :=
    ⟨linkedTop, rfl, rfl⟩
  obtain ⟨result, done⟩ := linked_goesThrough
  obtain ⟨-, seen, parts, -, each, noted, whole⟩ := localHarvest_mirrors linkedSurroundings
    (.str "file:///") none ["/"] true .never linked_isProper.named linked_isSized top
  refine ⟨linked_isProper.named, linked_isSized, top, result, done, ?_⟩
  rw [whole result done] at each
  obtain ⟨entries, rest, mirrors, nothing, rfl⟩ := List.forall₂_cons_left_iff.mp each
  cases nothing
  rw [HarvestOutcome.noted, done] at noted
  have same : result.entries = entries := by simpa using noted
  rw [same]
  exact mirrors

end Harvest
end HarvestPlan
