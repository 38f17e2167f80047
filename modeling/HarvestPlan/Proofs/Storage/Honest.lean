import Mathlib.Data.List.Nodup
import HarvestPlan.Proofs.Lists
import HarvestPlan.Proofs.Storage.ByName
import HarvestPlan.Proofs.Storage.Shown
import HarvestPlan.Proofs.Storage.Stored

namespace HarvestPlan.Bucket

open Json (Value)

/-- What is told of a prefix: the objects directly in it, and the prefixes up to the next slash of all
    that lies further below. -/
inductive IsTold (objects : List Stored) (folder : String) : Listed → Prop
  | object {object : Stored} {rest : List Char} (present : object ∈ objects)
      (shape : object.key.toList = folder.toList ++ rest) (direct : '/' ∉ rest) :
      IsTold objects folder (Item.file object).listed
  | folder {object : Stored} {name rest : List Char} (present : object ∈ objects)
      (shape : object.key.toList = folder.toList ++ (name ++ '/' :: rest)) (direct : '/' ∉ name) :
      IsTold objects folder (.folder (String.ofList (folder.toList ++ (name ++ ['/']))))

/-- The bucket can be opened, finds the objects and no others, and tells all of a folder on any
    number of pages and in any order. -/
structure IsHonest (bucket : Bucket) (objects : List Stored) : Prop where
  connects : bucket.connectFault = none
  opens : bucket.headFault = none
  found : ∀ object ∈ objects,
    bucket.head object.key = .ok ⟨some (.int object.size), object.modified⟩
  missing : ∀ key, (∀ object ∈ objects, object.key ≠ key) →
    ∃ fault, bucket.head key = .error fault ∧ fault.isMissing = .ok true
  probed : ∀ folder, endsInSlash folder = true →
    ∃ some_, bucket.probe folder = .ok some_ ∧
      (some_ = true ↔ ∃ object ∈ objects, folder.toList <+: object.key.toList)
  told : ∀ folder, endsInSlash folder = true → ∃ (pages : List Page) (cut : List (List Listed)),
    bucket.pages folder = pages.map .ok ∧ pages.Forall₂ Page.Holds cut ∧ cut.flatten.Nodup ∧
      ∀ listed, listed ∈ cut.flatten ↔ IsTold objects folder listed

variable {name : Value} {folder : String} {objects : List Stored}

theorem isTold_iff (ends : endsInSlash folder = true) {listed : Listed} :
    IsTold objects folder listed ↔
      (∃ item : Item, item.IsOf objects ∧ item.IsIn folder ∧ item.listed = listed) ∨
        ∃ object ∈ objects, object.key = folder ∧ (Item.file object).listed = listed := by
  constructor
  · intro told
    cases told with
    | @object object rest present shape direct =>
      by_cases marker : rest = []
      · exact .inr ⟨object, present, String.toList_injective (by simpa [marker] using shape), rfl⟩
      · have plain : endsInSlash object.key = false := by
          refine Bool.eq_false_iff.mpr fun slash => direct ?_
          exact List.mem_of_getLast? ((endsInSlash_append shape marker).mp slash)
        exact .inl ⟨.file object, .file present plain, ⟨rest, direct, by simpa [Item.isFolder]⟩, rfl⟩
    | @folder object name rest present shape direct =>
      refine .inl ⟨.folder (String.ofList (folder.toList ++ (name ++ ['/']))), ?_,
        ⟨name, direct, by simp [Item.key, Item.isFolder]⟩, rfl⟩
      exact .folder (endsInSlash_iff.mpr ⟨folder.toList ++ name, by simp⟩) present
        ⟨rest, by simp [shape]⟩
  · rintro (⟨item, isOf, ⟨name, direct, shape⟩, rfl⟩ | ⟨object, present, rfl, rfl⟩)
    · cases isOf with
      | @folder key object _ present leads =>
        obtain ⟨rest, whole⟩ := leads
        simp only [Item.key, Item.isFolder, if_true] at shape
        have same : Item.listed (.folder key) =
            .folder (String.ofList (folder.toList ++ (name ++ ['/']))) := by
          rw [← shape, String.ofList_toList]
          rfl
        rw [same]
        have further : object.key.toList = folder.toList ++ (name ++ '/' :: rest) := by
          simp [← whole, shape]
        exact .folder present further direct
      | file present =>
        simp only [Item.key, Item.isFolder, Bool.false_eq_true, if_false, List.append_nil] at shape
        exact .object present shape direct
    · exact .object present (List.append_nil _).symm (List.not_mem_nil)

theorem itemStatus_item (name : Value) {item : Item} (isOf : item.IsOf objects)
    (ends : endsInSlash folder = true) :
    itemStatus name folder item.listed = .ok (some (item.status name)) := by
  cases isOf with
  | folder => rfl
  | @file object present plain =>
    have other : object.key ≠ folder := by
      rintro rfl
      exact Bool.noConfusion (ends.symm.trans plain)
    simp [Item.listed, itemStatus, listedStatus, other, objectStatus, object.timed, Item.status, bind,
      Except.bind, pure, Except.pure, Functor.map, Except.map]

theorem itemStatus_marker (name : Value) {object : Stored} (marker : object.key = folder) :
    itemStatus name folder (Item.file object).listed = .ok none := by
  simp [Item.listed, itemStatus, listedStatus, marker]

theorem IsTold.shows (ends : endsInSlash folder = true) {listed : Listed}
    (told : IsTold objects folder listed) : faultOf name folder listed = none ∧
      ∀ status, shownOf name folder listed = some status → ∃ item : Item, item.IsOf objects ∧
        item.IsIn folder ∧ item.listed = listed ∧ item.status name = status := by
  rcases (isTold_iff ends).mp told with ⟨item, isOf, inside, rfl⟩ | ⟨object, -, marker, rfl⟩
  · have known := itemStatus_item name isOf ends
    refine ⟨by rw [faultOf, known], fun status same => ⟨item, isOf, inside, rfl, ?_⟩⟩
    simpa [shownOf, known, Except.toOption] using same
  · have known := itemStatus_marker name marker
    refine ⟨by rw [faultOf, known], fun status same => ?_⟩
    simp [shownOf, known, Except.toOption] at same

def tagged (status : Status) : String × Bool := (status.path, status.isDirectory)

theorem pathOf_injective (name : Value) : Function.Injective (pathOf name) := by
  intro key other same
  have texts := congrArg String.toList same
  simp only [pathOf, String.toList_append, List.append_cancel_left_eq] at texts
  exact String.toList_injective texts

theorem Item.IsOf.eq_of_tagged (once : (objects.map (·.key)).Nodup) {item other : Item}
    (isOf : item.IsOf objects) (otherOf : other.IsOf objects)
    (same : tagged (item.status name) = tagged (other.status name)) : item = other := by
  simp only [tagged, Item.status_path, Item.status_isDirectory, Prod.mk.injEq] at same
  obtain ⟨paths, kinds⟩ := same
  have keys := pathOf_injective name paths
  cases isOf with
  | folder =>
    cases otherOf with
    | folder => exact congrArg Item.folder keys
    | file => cases kinds
  | file present =>
    cases otherOf with
    | folder => cases kinds
    | file otherPresent =>
      exact congrArg Item.file (List.inj_on_of_nodup_map once present otherPresent keys)

theorem Item.status_name (item : Item) (name : String) :
    (item.status (.str name)).name.text?.isSome = true := by
  cases item with
  | folder key =>
    simp only [Item.status, folderStatus]
    split <;> rfl
  | file object => rfl

theorem IsHonest.list {bucket : Bucket} (honest : bucket.IsHonest objects)
    (once : (objects.map (·.key)).Nodup) {name : String} (ends : endsInSlash folder = true)
    {path : String} (leads : listedPrefix path = .ok folder) :
    ∃ statuses, (bucket.backend (.str name)).list path = ⟨[], .ok statuses⟩ ∧
      (∀ status, status ∈ statuses ↔
        ∃ item : Item, item.IsOf objects ∧ item.IsIn folder ∧ item.status (.str name) = status) ∧
      (statuses.map tagged).Nodup := by
  obtain ⟨pages, cut, answers, holds, single, told⟩ := honest.told folder ends
  let items := cut.flatMap (foldersFirst Listed.isFolder)
  have same : items.Perm cut.flatten := flatMap_foldersFirst_perm cut
  have each : ∀ listed ∈ items, IsTold objects folder listed :=
    fun listed present => (told listed).mp (same.mem_iff.mp present)
  have sound : cut.flatten.findSome? (faultOf (.str name) folder) = none :=
    List.findSome?_eq_none_iff.mpr fun listed present => (((told listed).mp present).shows ends).1
  let statuses := items.filterMap (shownOf (.str name) folder)
  have read : pagesStatuses (.str name) folder (bucket.pages folder) = .ok statuses := by
    rw [answers, pagesStatuses_eq holds, sound]
  have members : ∀ status, status ∈ statuses ↔
      ∃ item : Item, item.IsOf objects ∧ item.IsIn folder ∧ item.status (.str name) = status := by
    intro status
    rw [List.mem_filterMap]
    constructor
    · rintro ⟨listed, present, shown⟩
      obtain ⟨item, isOf, inside, -, shown⟩ := ((each listed present).shows ends).2 status shown
      exact ⟨item, isOf, inside, shown⟩
    · rintro ⟨item, isOf, inside, rfl⟩
      have among := (told _).mpr ((isTold_iff ends).mpr (.inl ⟨item, isOf, inside, rfl⟩))
      refine ⟨item.listed, same.mem_iff.mpr among, ?_⟩
      simp only [shownOf, itemStatus_item (.str name) isOf ends]
      rfl
  have sorted : sortByName statuses = .ok (byName statuses) := by
    refine if_pos (List.all_eq_true.mpr fun status present => ?_)
    obtain ⟨item, -, -, rfl⟩ := (members status).mp present
    exact item.status_name name
  have perm := byName_perm statuses
  refine ⟨byName statuses, ?_, fun status => by rw [perm.mem_iff, members], ?_⟩
  · simp only [backend_list, leads, bind, Except.bind, read]
    rw [sorted]
  · rw [(perm.map tagged).nodup_iff, List.Nodup, List.pairwise_map, List.pairwise_filterMap]
    refine List.Pairwise.imp_of_mem ?_ (same.nodup_iff.mpr single)
    intro listed other present otherPresent apart status shown otherStatus otherShown tags
    obtain ⟨item, isOf, -, rfl, rfl⟩ := ((each listed present).shows ends).2 status shown
    obtain ⟨otherItem, otherOf, -, rfl, rfl⟩ :=
      ((each other otherPresent).shows ends).2 otherStatus otherShown
    exact apart (congrArg Item.listed (isOf.eq_of_tagged once otherOf tags))

end HarvestPlan.Bucket
