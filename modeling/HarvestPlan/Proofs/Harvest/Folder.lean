import HarvestPlan.Proofs.Harvest.FolderTree
import HarvestPlan.Proofs.Harvest.Recursive
import HarvestPlan.Proofs.Harvest.Through
import HarvestPlan.Proofs.Number.Whole

namespace HarvestPlan

open Json (Value)
open Bucket (Stored Item IsKey IsOrdinary IsSound Spells listedPrefix pathOf)

theorem Bucket.Item.status_permission (item : Item) (name : Value) :
    0 ≤ (item.status name).permission ∧
      (item.status name).permission ≤ Entry.greatestPermission := by
  have folder : 0 ≤ folderPermission ∧ folderPermission ≤ Entry.greatestPermission := by decide
  have object : 0 ≤ objectPermission ∧ objectPermission ≤ Entry.greatestPermission := by decide
  cases item with
  | folder => exact folder
  | file => exact object

theorem Connection.openBucket_honest {bucket : Bucket} {objects : List Stored}
    (honest : bucket.IsHonest objects) (name : Value) :
    openBucket bucket name = .ok (bucket.backend name) := by
  simp [openBucket, honest.connects, honest.opens]

theorem Bucket.listedCount_lt_walkLimit (bucket : Bucket) :
    bucket.listedCount + 1 ≤ bucket.walkLimit := by
  have grows : bucket.listedCount + 64 < 2 ^ (bucket.listedCount + 64) := Nat.lt_two_pow_self
  have limit : bucket.walkLimit = 2 ^ (bucket.listedCount + 64) := rfl
  omega

namespace Harvest

structure ShowsItem (name : String) (item : Item) (entry : Entry) : Prop where
  fullPath : entry.fullPath = .str (pathOf (.str name) item.key)
  isFolder : entry.isFolder = .bool item.isFolder
  size : entry.size = .int item.size

/-- What a harvest has noted of a folder: of each item below it one entry. Each folder is listed by a
    prefix of its own. -/
structure IsWholeFolder (objects : List Stored) (name folder : String) (items : List Item)
    (result : HarvestResult) : Prop where
  shown : items.Forall₂ (ShowsItem name) result.entries
  exactly : ∀ item, item ∈ items ↔ item.IsOf objects ∧ item.IsBelow folder
  once : (items.map fun item => (item.key, item.isFolder)).Nodup
  listed : ∀ item ∈ items, item.isFolder = true →
    listedPrefix (pathOf (.str name) item.key) = .ok item.key
  listedOnce : ((items.filter (·.isFolder)).map fun item =>
    listedPrefix (pathOf (.str name) item.key)).Nodup
  silent : result.warnings = []

theorem entryOf_item {objects : List Stored} {name top root : String} {item : Item}
    (spells : Spells objects top root) (proper : IsKey (top ++ "/")) (free : '/' ∉ name.toList)
    (below : item.IsBelow (top ++ "/")) (credentials : Credentials) :
    ∃ entry, entryOf ("/" ++ root) credentials (item.status (.str name)) = .ok entry := by
  obtain ⟨base, based, relative⟩ :=
    spells.compute proper free below (item.status (.str name)).name
  rw [← Item.status_path] at based
  have sized : (item.status (.str name)).size.quantity? = some (.int item.size) := by
    rw [Item.status_size]
    rfl
  have natural : (Quantity.int item.size).less (.int 0) = false := by
    rw [Quantity.less_int]
    exact decide_eq_false (by omega)
  obtain ⟨least, most⟩ := item.status_permission (.str name)
  exact ⟨_, entryOf_made credentials based relative sized natural least most⟩

theorem showsItem_of_made {root name : String} {credentials : Credentials} {item : Item}
    {entry : Entry} (made : entryOf root credentials (item.status (.str name)) = .ok entry) :
    ShowsItem name item entry := by
  obtain ⟨-, size, basePath, sized, rfl⟩ := entryOf_ok made
  rw [Item.status_size] at sized
  exact ⟨by rw [Item.status_path], by rw [Item.status_isDirectory], (Option.some.inj sized).symm⟩

theorem listed_nodup {name : String} {items : List Item}
    (once : (items.map fun item => (item.key, item.isFolder)).Nodup)
    (listed : ∀ item ∈ items, item.isFolder = true →
      listedPrefix (pathOf (.str name) item.key) = .ok item.key) :
    ((items.filter (·.isFolder)).map fun item =>
      listedPrefix (pathOf (.str name) item.key)).Nodup := by
  have folders := once.sublist ((List.filter_sublist (p := Item.isFolder)).map _)
  rw [List.Nodup, List.pairwise_map] at folders ⊢
  refine folders.imp_of_mem ?_
  intro item other present otherPresent apart same
  obtain ⟨held, folder⟩ := List.mem_filter.mp present
  obtain ⟨otherHeld, otherFolder⟩ := List.mem_filter.mp otherPresent
  rw [listed item held folder, listed other otherHeld otherFolder, Except.ok.injEq] at same
  exact apart (by rw [same, folder, otherFolder])

def bucketSetting (bucket : Bucket) (name : String) (credentials : Credentials) : Setting :=
  ⟨bucket.backend (.str name), credentials, true, .never, bucket.walkLimit⟩

theorem visitRoot_bucket {bucket : Bucket} {name : String} {credentials : Credentials} {root : String}
    {view : RootView} (shown : view.IsOf (bucket.backend (.str name)) root)
    (few : view.size ≤ bucket.listedCount + 1) (progress : Progress) :
    visitRoot (bucketSetting bucket name credentials) root progress =
      visitView credentials .never root view progress := by
  have enough : view.size ≤ (bucketSetting bucket name credentials).limit := by
    simpa only [bucketSetting] using few.trans bucket.listedCount_lt_walkLimit
  exact @visitRoot_view (bucketSetting bucket name credentials) rfl root view shown enough progress

theorem visitRoot_wholeFolder {bucket : Bucket} {objects : List Stored} {name top root : String}
    (sound : IsSound objects) (ordinary : IsOrdinary name) (honest : bucket.IsHonest objects)
    (held : ∃ object ∈ objects, (top ++ "/").toList <+: object.key.toList)
    (spells : Spells objects top root) (credentials : Credentials) {progress : Progress}
    (fresh : progress.entries = #[]) (silent : progress.warnings = #[]) :
    ∃ after items,
      visitRoot (bucketSetting bucket name credentials) root progress = .ok after ∧
      IsWholeFolder objects name (top ++ "/") items (.ofProgress after) := by
  obtain ⟨object, present, leads⟩ := held
  have ends := Bucket.endsInSlash_padded top
  have isOf : (Item.folder (top ++ "/")).IsOf objects := .folder ends present leads
  have proper : IsKey (top ++ "/") := (sound.proper object present).leading ends leads
  have free : '/' ∉ name.toList := fun slash => (ordinary _ slash).1 (by simp)
  obtain ⟨tree, same, shown⟩ :=
    Tree.exists_of_finite (Tree.item_finite sound ordinary honest isOf)
  have whole := Tree.isWhole sound ordinary honest shown isOf same
  obtain ⟨items, shows, once, members⟩ := whole.exists_items sound
  have made : ∀ status ∈ tree.statuses, ∃ entry,
      entryOf ("/" ++ root) credentials status = .ok entry := by
    intro status inside
    obtain ⟨item, itemHeld, rfl⟩ := Lists.exists_left shows inside
    exact entryOf_item spells proper free ((members item).mp itemHeld).2 credentials
  have quiet : IsQuiet .never progress.asked (progress.asked + tree.size) := fun _ _ _ => rfl
  obtain ⟨after, visited, -⟩ := visit_through tree whole.read made quiet
  obtain ⟨-, ⟨entries, noted, each⟩, warned⟩ := visit_adds tree visited
  simp only [fresh, silent, whole.silent, List.nil_append, List.append_nil] at noted warned
  have listed : ∀ item ∈ items, item.isFolder = true →
      listedPrefix (pathOf (.str name) item.key) = .ok item.key := by
    intro item itemHeld folder
    have itemOf := ((members item).mp itemHeld).1
    cases item with
    | folder key => exact (Tree.listedPrefix_of_isOf sound ordinary itemOf).1
    | file object => cases folder
  refine ⟨after, items, ?_, ?_, members, once, listed, listed_nodup once listed, warned⟩
  · have looked : (bucket.backend (.str name)).stat ("/" ++ root) = .ok tree.status := by
      rw [honest.stat spells proper ⟨object, present, leads⟩, same]
      rfl
    have view : RootView.IsOf (bucket.backend (.str name)) root (.seen ("/" ++ root) tree) :=
      .seen (spells.normalizeRoot proper _) looked shown
    have directory : tree.status.isDirectory = true := by
      rw [same]
      rfl
    rw [visitRoot_bucket view (whole.size_le sound honest ends), visitView, treeRoot,
      if_pos directory]
    exact visited
  · change items.Forall₂ (ShowsItem name) after.entries.toList
    rw [noted]
    exact Lists.compose shows each fun item status entry sameStatus entryMade =>
      showsItem_of_made (sameStatus ▸ entryMade)

/-- In a bucket that tells the truth about its objects, a recursive harvest of a folder that holds an
    object goes through, whether the folder is spelled with the slash at its end or, unless that is the
    key of an object, without. Its entries are those of the folder itself, of all folders further below
    and of all files below, each once; no folder is listed twice. -/
theorem bucketHarvest_isWhole (surroundings : Surroundings)
    (accessKeyId secretKeyId region endpointUrl : Value) {name : String}
    (ordinary : IsOrdinary name) {objects : List Stored} (sound : IsSound objects)
    (honest : surroundings.bucket.IsHonest objects) (given : Option Credentials)
    {credentials : Credentials} (chosen : chooseCredentials
      (.amazonS3 accessKeyId secretKeyId (.str name) region endpointUrl) given = .ok credentials)
    {top root : String} (held : ∃ object ∈ objects, (top ++ "/").toList <+: object.key.toList)
    (spells : Spells objects top root) :
    ∃ result items,
      (run surroundings (.amazonS3 accessKeyId secretKeyId (.str name) region endpointUrl) given
        [root] true .never).result = .ok result ∧
      IsWholeFolder objects name (top ++ "/") items result := by
  let asked : Progress := ⟨#[], #[], 1⟩
  have fresh : asked.entries = #[] ∧ asked.warnings = #[] := ⟨rfl, rfl⟩
  obtain ⟨after, items, visited, whole⟩ :=
    visitRoot_wholeFolder sound ordinary honest held spells credentials fresh.1 fresh.2
  have opened := Connection.openBucket_honest honest (.str name)
  exact ⟨_, items, run_through chosen opened (visitRoots_single_ok.mpr ⟨rfl, visited⟩), whole⟩

def shelfMarker : Stored := ⟨"d/", 0, .null, .str "", 0, rfl⟩

def shelfFile : Stored := ⟨"d/x", 1, .null, .str "", 0, rfl⟩

def shelfPage : Page where
  folders := []
  objects := [.ok ⟨.str "d/", .int 0, .null, .ok (.str "")⟩, .ok ⟨.str "d/x", .int 1, .null, .ok (.str "")⟩]

def shelf : Bucket where
  connectFault := none
  headFault := none
  heads := [("d/", .ok ⟨some (.int 0), .null⟩), ("d/x", .ok ⟨some (.int 1), .null⟩)]
  probes := [("d/", .ok true)]
  listings := [("d/", [.ok shelfPage])]

theorem shelf_folder {folder : String} (ends : Bucket.endsInSlash folder = true)
    (leads : ∃ object ∈ [shelfMarker, shelfFile], folder.toList <+: object.key.toList) :
    folder = "d/" := by
  have whole : folder.toList <+: ['d', '/', 'x'] := by
    obtain ⟨object, present, leads⟩ := leads
    rcases List.mem_pair.mp present with rfl | rfl
    · exact List.IsPrefix.trans leads ⟨['x'], rfl⟩
    · exact leads
  have few : folder.toList.length ≤ 3 := whole.length_le
  have taken := List.prefix_iff_eq_take.mp whole
  have counts : folder.toList.length = 2 ∨ folder.toList.length = 0 ∨
      folder.toList.length = 1 ∨ folder.toList.length = 3 := by omega
  rcases counts with count | count | count | count
  · rw [count] at taken
    exact String.toList_injective taken
  all_goals
    rw [count] at taken
    rw [Bucket.endsInSlash, taken] at ends
    exact absurd ends (by decide)

theorem shelf_isHonest : shelf.IsHonest [shelfMarker, shelfFile] := by
  refine ⟨rfl, rfl, ?_, ?_, ?_, ?_⟩
  · intro object present
    rcases List.mem_pair.mp present with rfl | rfl <;> rfl
  · intro key other
    have first : key ≠ "d/" := (other shelfMarker (by simp)).symm
    have second : key ≠ "d/x" := (other shelfFile (by simp)).symm
    refine ⟨.refused (some (.str "404")) "Not Found", ?_, rfl⟩
    simp [Bucket.head, shelf, List.lookup_cons, beq_false_of_ne first, beq_false_of_ne second]
  · intro folder ends
    by_cases own : folder = "d/"
    · subst own
      exact ⟨true, rfl, fun _ => ⟨shelfMarker, by simp, List.prefix_rfl⟩, fun _ => rfl⟩
    · have none : ¬∃ object ∈ [shelfMarker, shelfFile], folder.toList <+: object.key.toList :=
        fun leads => own (shelf_folder ends leads)
      refine ⟨false, ?_, iff_of_false Bool.false_ne_true none⟩
      simp [Bucket.probe, shelf, List.lookup_cons, beq_false_of_ne own]
  · intro folder ends
    by_cases own : folder = "d/"
    · subst own
      refine ⟨[shelfPage], [[(Item.file shelfMarker).listed, (Item.file shelfFile).listed]], rfl,
        .cons ⟨rfl, rfl⟩ .nil, ?_, ?_⟩
      · have apart : (Item.file shelfMarker).listed ≠ (Item.file shelfFile).listed := by
          simp [Item.listed, shelfMarker, shelfFile]
        simpa using apart
      · intro listed
        rw [List.flatten_singleton, List.mem_pair]
        constructor
        · rintro (rfl | rfl)
          · exact @Bucket.IsTold.object _ _ shelfMarker [] (by simp) rfl (by decide)
          · exact @Bucket.IsTold.object _ _ shelfFile ['x'] (by simp) rfl (by decide)
        · intro told
          cases told with
          | object present => rcases List.mem_pair.mp present with rfl | rfl <;> simp
          | @folder object name rest present shape direct =>
            -- no slash follows the folder in either key
            have further : '/' ∈ name ++ '/' :: rest := by simp
            rcases List.mem_pair.mp present with rfl | rfl
            · have whole : ['d', '/'] ++ [] = ['d', '/'] ++ (name ++ '/' :: rest) := shape
              rw [← List.append_cancel_left whole] at further
              cases further
            · have whole : ['d', '/'] ++ ['x'] = ['d', '/'] ++ (name ++ '/' :: rest) := shape
              rw [← List.append_cancel_left whole] at further
              exact absurd further (by decide)
    · refine ⟨[], [], ?_, .nil, List.nodup_nil, ?_⟩
      · simp [Bucket.pages, shelf, List.lookup_cons, beq_false_of_ne own]
      · intro listed
        refine iff_of_false List.not_mem_nil fun told => own (shelf_folder ends ?_)
        cases told with
        | object present shape => exact ⟨_, present, _, shape.symm⟩
        | folder present shape => exact ⟨_, present, _, shape.symm⟩

theorem bucketHarvest_isWhole_shelf :
    IsOrdinary "b" ∧ IsSound [shelfMarker, shelfFile] ∧ shelf.IsHonest [shelfMarker, shelfFile] ∧
      Spells [shelfMarker, shelfFile] "d" "d" ∧ ∃ result items,
        (run ⟨⟨[], "/", [], false⟩, shelf⟩ (.amazonS3 .null .null (.str "b") .null .null) none ["d"]
          true .never).result = .ok result ∧
        IsWholeFolder [shelfMarker, shelfFile] "b" "d/" items result := by
  have ordinary : IsOrdinary "b" := by decide +kernel
  have sound : IsSound [shelfMarker, shelfFile] :=
    ⟨by decide +kernel, by decide +kernel, by decide +kernel⟩
  have chosen : chooseCredentials (.amazonS3 .null .null (.str "b") .null .null) none =
      .ok (Connection.credentials (.amazonS3 .null .null (.str "b") .null .null)) := by
    decide
  have spells : Spells [shelfMarker, shelfFile] "d" "d" := .inr ⟨rfl, by decide⟩
  exact ⟨ordinary, sound, shelf_isHonest, spells,
    bucketHarvest_isWhole ⟨⟨[], "/", [], false⟩, shelf⟩ .null .null .null .null ordinary sound
      shelf_isHonest none chosen ⟨shelfFile, by simp, ['x'], rfl⟩ spells⟩

end Harvest
end HarvestPlan
