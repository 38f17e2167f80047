import HarvestPlan.Proofs.Harvest.Preorder
import HarvestPlan.Proofs.Storage.FolderRoot

namespace HarvestPlan

open Bucket (Stored Item IsKey IsKept IsOrdinary listedPrefix pathOf tagged endsInSlash folderStatus)

/-- Objects whose keys are all different and are kept in paths. -/
structure Bucket.IsSound (objects : List Stored) : Prop where
  once : (objects.map (·.key)).Nodup
  proper : ∀ object ∈ objects, IsKey object.key
  kept : ∀ object ∈ objects, IsKept object.key

namespace Tree

variable {bucket : Bucket} {objects : List Stored} {name : String}

theorem listedPrefix_of_isOf (sound : Bucket.IsSound objects) (ordinary : IsOrdinary name)
    {key : String} (isOf : (Item.folder key).IsOf objects) :
    listedPrefix (pathOf (.str name) key) = .ok key ∧ endsInSlash key = true := by
  cases isOf with
  | folder ends present leads =>
    have proper := (sound.proper _ present).leading ends leads
    have kept := (sound.kept _ present).leading leads
    exact ⟨(Bucket.listedPrefix_pathOf_eq_iff ordinary proper (.inr ends)).mpr kept, ends⟩

theorem list_of_isOf (sound : Bucket.IsSound objects) (ordinary : IsOrdinary name)
    (honest : bucket.IsHonest objects) {key : String} (isOf : (Item.folder key).IsOf objects) :
    ∃ statuses, (bucket.backend (.str name)).list (pathOf (.str name) key) = ⟨[], .ok statuses⟩ ∧
      (∀ status, status ∈ statuses ↔
        ∃ item : Item, item.IsOf objects ∧ item.IsIn key ∧ item.status (.str name) = status) ∧
      (statuses.map tagged).Nodup := by
  obtain ⟨leads, ends⟩ := listedPrefix_of_isOf sound ordinary isOf
  exact honest.list sound.once ends leads

/-- Prefixes grow from folder to folder, and none is longer than a key. -/
theorem item_finite (sound : Bucket.IsSound objects) (ordinary : IsOrdinary name)
    (honest : bucket.IsHonest objects) {item : Item} (isOf : item.IsOf objects) :
    Acc (IsListedIn (bucket.backend (.str name))) (item.status (.str name)) := by
  obtain ⟨bound, short⟩ := Lists.exists_bound (fun object : Stored => object.key.toList.length) objects
  have most : ∀ item : Item, item.IsOf objects → item.key.toList.length < bound := by
    intro item isOf
    cases isOf with
    | folder _ present leads => exact leads.length_le.trans_lt (short _ present)
    | file present => exact short _ present
  obtain ⟨room, deep⟩ : ∃ room, bound ≤ item.key.toList.length + room := ⟨bound, by omega⟩
  induction room generalizing item with
  | zero =>
    have least := most item isOf
    omega
  | succ room ih =>
    refine ⟨_, fun child ⟨directory, statuses, listing, present⟩ => ?_⟩
    cases item with
    | file object => cases directory
    | folder key =>
      obtain ⟨known, listed, members, -⟩ := list_of_isOf sound ordinary honest isOf
      obtain ⟨-, ends⟩ := listedPrefix_of_isOf sound ordinary isOf
      rw [Item.status_path, Item.key, listed] at listing
      obtain rfl : known = statuses := Except.ok.inj listing
      obtain ⟨inner, innerOf, inside, rfl⟩ := (members child).mp present
      have longer := inside.longer innerOf ends
      simp only [Item.key] at deep
      exact ih innerOf (by omega)

theorem keys_of_tagged {item other : Item}
    (same : tagged (item.status (.str name)) = tagged (other.status (.str name))) :
    item.key = other.key ∧ item.isFolder = other.isFolder := by
  simp only [tagged, Item.status_path, Item.status_isDirectory, Prod.mk.injEq] at same
  exact ⟨Bucket.pathOf_injective _ same.1, same.2⟩

structure IsWhole (objects : List Stored) (name : String) (item : Item) (tree : Tree) : Prop where
  read : tree.IsRead
  silent : tree.warnings = []
  statuses : ∀ status, status ∈ tree.statuses ↔
    ∃ other : Item, other.IsOf objects ∧ item.Holds other ∧ other.status (.str name) = status
  once : (tree.statuses.map tagged).Nodup

section Children

variable {key : String} {children : List Tree}
  (whole : ∀ child ∈ children, ∃ inner : Item, inner.IsOf objects ∧ inner.IsIn key ∧
    inner.status (.str name) = child.status ∧ child.IsWhole objects name inner)
include whole

theorem statusesAll_whole (ends : endsInSlash key = true)
    (all : ∀ inner : Item, inner.IsOf objects → inner.IsIn key → ∃ child ∈ children,
      child.IsWhole objects name inner) (status : Status) :
    status ∈ statusesAll children ↔ ∃ other : Item, other.IsOf objects ∧ other.IsBelow key ∧
      other ≠ .folder key ∧ other.status (.str name) = status := by
  rw [statusesAll_eq, List.mem_flatMap]
  constructor
  · rintro ⟨child, present, held⟩
    obtain ⟨inner, innerOf, inside, _, below⟩ := whole child present
    obtain ⟨other, otherOf, holds, shows⟩ := (below.statuses status).mp held
    refine ⟨other, otherOf, inside.holds_below holds, ?_, shows⟩
    rintro rfl
    -- an item that a child holds is longer than the folder itself
    have longer := inside.longer innerOf ends
    have least : inner.key.toList.length ≤ key.toList.length := holds.leads.length_le
    omega
  · rintro ⟨other, otherOf, below, apart, rfl⟩
    obtain ⟨inner, innerOf, inside, holds⟩ := below.exists_child otherOf ends apart
    obtain ⟨child, present, shown⟩ := all inner innerOf inside
    exact ⟨child, present, (shown.statuses _).mpr ⟨other, otherOf, holds, rfl⟩⟩

theorem tagged_nodup (single : (children.map fun child => tagged child.status).Nodup) :
    ((statusesAll children).map tagged).Nodup := by
  rw [statusesAll_eq, List.map_flatMap, List.nodup_flatMap]
  refine ⟨fun child present => ?_, ?_⟩
  · obtain ⟨_, _, _, _, below⟩ := whole child present
    exact below.once
  · rw [List.Nodup, List.pairwise_map] at single
    refine single.imp_of_mem ?_
    intro child sibling present siblingPresent apart tag inFirst inSecond
    obtain ⟨status, held, rfl⟩ := List.mem_map.mp inFirst
    obtain ⟨other, otherHeld, tags⟩ := List.mem_map.mp inSecond
    obtain ⟨inner, _, inside, shows, below⟩ := whole child present
    obtain ⟨otherInner, _, otherInside, otherShows, otherBelow⟩ := whole sibling siblingPresent
    obtain ⟨item, _, holds, rfl⟩ := (below.statuses status).mp held
    obtain ⟨otherItem, _, otherHolds, rfl⟩ := (otherBelow.statuses other).mp otherHeld
    obtain ⟨keys, kinds⟩ := inside.eq_of_holds otherInside holds otherHolds
      (keys_of_tagged tags).1.symm
    refine apart ?_
    simp only [← shows, ← otherShows, tagged, Item.status_path, Item.status_isDirectory, keys, kinds]

theorem isWhole_folder (sound : Bucket.IsSound objects) (isOf : (Item.folder key).IsOf objects)
    (ends : endsInSlash key = true)
    (all : ∀ inner : Item, inner.IsOf objects → inner.IsIn key → ∃ child ∈ children,
      child.IsWhole objects name inner)
    (single : (children.map fun child => tagged child.status).Nodup) :
    (folder ((Item.folder key).status (.str name)) [] children).IsWhole objects name
      (.folder key) := by
  have others := statusesAll_whole whole ends all
  refine ⟨.folder fun child present => ?_, ?_, fun status => ?_, ?_⟩
  · obtain ⟨_, _, _, _, below⟩ := whole child present
    exact below.read
  · rw [warnings, warningsAll_eq]
    refine List.flatMap_eq_nil_iff.mpr fun child present => ?_
    obtain ⟨_, _, _, _, below⟩ := whole child present
    exact below.silent
  · rw [statuses, List.mem_cons, others]
    constructor
    · rintro (rfl | ⟨other, otherOf, holds, -, shows⟩)
      · exact ⟨_, isOf, .refl _, rfl⟩
      · exact ⟨other, otherOf, holds, shows⟩
    · rintro ⟨other, otherOf, holds, shows⟩
      by_cases own : other = .folder key
      · exact .inl (by rw [← shows, own])
      · exact .inr ⟨other, otherOf, holds, own, shows⟩
  · rw [statuses, List.map_cons, List.nodup_cons]
    refine ⟨fun again => ?_, tagged_nodup whole single⟩
    obtain ⟨status, held, tags⟩ := List.mem_map.mp again
    obtain ⟨other, otherOf, -, apart, rfl⟩ := (others status).mp held
    exact apart (otherOf.eq_of_tagged sound.once isOf tags)

end Children

theorem isWhole (sound : Bucket.IsSound objects) (ordinary : IsOrdinary name)
    (honest : bucket.IsHonest objects) {tree : Tree} (shown : tree.IsOf (bucket.backend (.str name)))
    {item : Item} (isOf : item.IsOf objects) (same : tree.status = item.status (.str name)) :
    tree.IsWhole objects name item := by
  induction shown generalizing item with
  | @file status plain =>
    obtain rfl : status = item.status (.str name) := same
    cases item with
    | folder key => cases plain
    | file object =>
      refine ⟨.file, rfl, fun status => ?_, List.nodup_singleton _⟩
      rw [statuses, List.mem_singleton]
      constructor
      · rintro rfl
        exact ⟨_, isOf, rfl, rfl⟩
      · rintro ⟨other, -, rfl, rfl⟩
        rfl
  | @unlisted status failed cause directory listing =>
    obtain rfl : status = item.status (.str name) := same
    cases item with
    | file object => cases directory
    | folder key =>
      obtain ⟨known, listed, -⟩ := list_of_isOf sound ordinary honest isOf
      rw [Item.status_path, Item.key, listed] at listing
      cases listing
  | @folder status failed children directory listing below ih =>
    obtain rfl : status = item.status (.str name) := same
    cases item with
    | file object => cases directory
    | folder key =>
      obtain ⟨known, listed, members, single⟩ := list_of_isOf sound ordinary honest isOf
      obtain ⟨-, ends⟩ := listedPrefix_of_isOf sound ordinary isOf
      rw [Item.status_path, Item.key, listed] at listing
      simp only [Listing.mk.injEq, Except.ok.injEq] at listing
      obtain ⟨rfl, rfl⟩ := listing
      rw [List.map_map] at single
      have whole : ∀ child ∈ children, ∃ inner : Item, inner.IsOf objects ∧ inner.IsIn key ∧
          inner.status (.str name) = child.status ∧ child.IsWhole objects name inner := by
        intro child present
        obtain ⟨inner, innerOf, inside, shows⟩ :=
          (members child.status).mp (List.mem_map_of_mem present)
        exact ⟨inner, innerOf, inside, shows, ih child present innerOf shows.symm⟩
      have all : ∀ inner : Item, inner.IsOf objects → inner.IsIn key → ∃ child ∈ children,
          child.IsWhole objects name inner := by
        intro inner innerOf inside
        obtain ⟨child, present, shows⟩ :=
          List.mem_map.mp ((members _).mpr ⟨inner, innerOf, inside, rfl⟩)
        exact ⟨child, present, ih child present innerOf shows⟩
      exact isWhole_folder whole sound isOf ends all single

def answerItems : Except RequestFault Page → List (Except Failure String ⊕ Except Failure ListedObject)
  | .ok page => page.folders.map .inl ++ page.objects.map .inr
  | .error _ => []

def understood : Listed → Except Failure String ⊕ Except Failure ListedObject
  | .folder key => .inl (.ok key)
  | .object object => .inr (.ok object)

theorem understood_injective : Function.Injective understood := by
  intro listed other same
  cases listed with
  | folder key =>
    cases other with
    | folder otherKey => rw [Except.ok.inj (Sum.inl.inj same)]
    | object otherObject => cases same
  | object object =>
    cases other with
    | folder otherKey => cases same
    | object otherObject => rw [Except.ok.inj (Sum.inr.inj same)]

theorem understood_mem {page : Page} {items : List Listed} (holds : page.Holds items) {listed : Listed}
    (present : listed ∈ items) : understood listed ∈ answerItems (.ok page) := by
  rw [answerItems, holds.folders, holds.objects, List.mem_append]
  cases listed with
  | folder key =>
    exact .inl (List.mem_map_of_mem (List.mem_map_of_mem (List.mem_filterMap.mpr ⟨_, present, rfl⟩)))
  | object object =>
    exact .inr (List.mem_map_of_mem (List.mem_map_of_mem (List.mem_filterMap.mpr ⟨_, present, rfl⟩)))

theorem length_answerItems (answer : Except RequestFault Page) :
    (answerItems answer).length = Bucket.answerSize answer := by
  cases answer with
  | error fault => rfl
  | ok page => simp [answerItems, Bucket.answerSize]

theorem answered_of_pages {folder : String} {answer : Except RequestFault Page}
    (answered : answer ∈ bucket.pages folder) : answer ∈ bucket.listings.flatMap (·.2) := by
  unfold Bucket.pages at answered
  cases found : bucket.listings.lookup folder with
  | none => simp [found] at answered
  | some pages =>
    obtain ⟨before, after, same, -⟩ := List.lookup_eq_some_iff.mp found
    exact List.mem_flatMap.mpr ⟨(folder, pages), same ▸ by simp, by simpa [found] using answered⟩

theorem length_le_listedCount {items : List Listed} (once : items.Nodup) (first : Listed)
    (each : ∀ item ∈ items, item = first ∨
      ∃ folder page, Except.ok page ∈ bucket.pages folder ∧ understood item ∈ answerItems (.ok page)) :
    items.length ≤ bucket.listedCount + 1 := by
  let told := (bucket.listings.flatMap (·.2)).flatMap answerItems
  have count : told.length = bucket.listedCount := by
    rw [List.length_flatMap, List.sum_eq_foldr, List.foldr_map, Bucket.listedCount]
    simp only [length_answerItems]
  have subset : items.map understood ⊆ understood first :: told := by
    intro mark present
    obtain ⟨item, held, rfl⟩ := List.mem_map.mp present
    rcases each item held with rfl | ⟨folder, page, answered, inside⟩
    · exact List.mem_cons_self
    · exact List.mem_cons_of_mem _
        (List.mem_flatMap.mpr ⟨.ok page, answered_of_pages answered, inside⟩)
  rw [← count, ← List.length_map (f := understood)]
  exact (List.subperm_of_subset (once.map understood_injective) subset).length_le

theorem IsWhole.exists_items (sound : Bucket.IsSound objects) {tree : Tree} {item : Item}
    (whole : tree.IsWhole objects name item) :
    ∃ items : List Item, items.Forall₂ (fun item status => item.status (.str name) = status)
        tree.statuses ∧
      (items.map fun item => (item.key, item.isFolder)).Nodup ∧
      ∀ other, other ∈ items ↔ other.IsOf objects ∧ item.Holds other := by
  obtain ⟨items, beside⟩ :=
    Lists.exists_beside fun status present => (whole.statuses status).mp present
  have held := Lists.forall_left beside fun item status same => And.intro same.1 same.2.1
  have shows := beside.imp fun item status same => same.2.2
  refine ⟨items, shows, ?_, fun other => ⟨held other, fun ⟨otherOf, holds⟩ => ?_⟩⟩
  · have tags : items.map (fun item => (pathOf (.str name) item.key, item.isFolder)) =
        tree.statuses.map tagged := Lists.map_eq_map shows fun item status same => by
      rw [← same, tagged, Item.status_path, Item.status_isDirectory]
    have once := whole.once
    rw [← tags] at once
    have split : (items.map fun item => (item.key, item.isFolder)).map
        (Prod.map (pathOf (.str name)) id) =
          items.map fun item => (pathOf (.str name) item.key, item.isFolder) := by
      simp
    exact (split ▸ once).of_map
  · have present := (whole.statuses _).mpr ⟨other, otherOf, holds, rfl⟩
    obtain ⟨shown, shownHeld, same⟩ := Lists.exists_left shows present
    have tags := congrArg tagged same
    rw [← (held shown shownHeld).1.eq_of_tagged sound.once otherOf tags]
    exact shownHeld

theorem IsWhole.size_le (sound : Bucket.IsSound objects) (honest : bucket.IsHonest objects)
    {tree : Tree} {top : String} (ends : endsInSlash top = true)
    (whole : tree.IsWhole objects name (.folder top)) : tree.size ≤ bucket.listedCount + 1 := by
  obtain ⟨items, shows, tags, members⟩ := whole.exists_items sound
  have once : (items.map Item.listed).Nodup := (tags.of_map).map Item.listed_injective
  have count : (items.map Item.listed).length = tree.size := by
    rw [List.length_map, tree.size_eq, shows.length_eq]
  rw [← count]
  refine length_le_listedCount once (.folder top) fun listed present => ?_
  obtain ⟨item, held, rfl⟩ := List.mem_map.mp present
  obtain ⟨isOf, below⟩ := (members item).mp held
  by_cases own : item = .folder top
  · exact .inl (by rw [own]; rfl)
  · obtain ⟨parent, parentEnds, inside⟩ := Item.IsBelow.exists_parent isOf ends below own
    obtain ⟨pages, cut, answers, holds, -, told⟩ := honest.told parent parentEnds
    have among := (told _).mpr ((Bucket.isTold_iff parentEnds).mpr (.inl ⟨item, isOf, inside, rfl⟩))
    obtain ⟨part, partHeld, listed⟩ := List.mem_flatten.mp among
    obtain ⟨page, pageHeld, holds⟩ := Lists.exists_left holds partHeld
    refine .inr ⟨parent, page, ?_, understood_mem holds listed⟩
    rw [answers]
    exact List.mem_map_of_mem pageHeld

end Tree
end HarvestPlan
