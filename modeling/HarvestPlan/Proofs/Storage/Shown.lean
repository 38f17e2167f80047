import Mathlib.Data.List.Forall2
import HarvestPlan.Proofs.Outcome
import HarvestPlan.Storage.Bucket

namespace HarvestPlan

open Json (Value)

inductive Listed where
  | folder (key : String)
  | object (object : ListedObject)

namespace Listed

def isFolder : Listed → Bool
  | folder _ => true
  | object _ => false

def key : Listed → Value
  | folder key => .str key
  | object shown => shown.key

def folder? : Listed → Option String
  | folder key => some key
  | object _ => none

def object? : Listed → Option ListedObject
  | folder _ => none
  | object shown => some shown

end Listed

/-- The page tells of these items, of either kind in their order. -/
structure Page.Holds (page : Page) (items : List Listed) : Prop where
  folders : page.folders = (items.filterMap Listed.folder?).map .ok
  objects : page.objects = (items.filterMap Listed.object?).map .ok

namespace Bucket

variable {name : Value} {folder : String}

def itemStatus (name : Value) (folder : String) : Listed → Except Failure (Option Status)
  | .folder key => .ok (some (folderStatus name key))
  | .object object => listedStatus name folder object

def shownOf (name : Value) (folder : String) (listed : Listed) : Option Status :=
  (itemStatus name folder listed).toOption.join

def faultOf (name : Value) (folder : String) (listed : Listed) : Option Failure :=
  match itemStatus name folder listed with
  | .ok _ => none
  | .error cause => some cause

theorem itemStatus_of_shownOf {listed : Listed} {status : Status}
    (shown : shownOf name folder listed = some status) :
    itemStatus name folder listed = .ok (some status) := by
  unfold shownOf at shown
  cases read : itemStatus name folder listed with
  | error cause => simp [read, Except.toOption] at shown
  | ok told => simpa [read, Except.toOption] using shown

theorem shownOf_some {name : String} {listed : Listed} {status : Status}
    (shown : shownOf (.str name) folder listed = some status) :
    ∃ key title, listed.key = .str key ∧ status.path = pathOf (.str name) key ∧
      status.name = .str title ∧ status.isDirectory = listed.isFolder := by
  have read := itemStatus_of_shownOf shown
  cases listed with
  | folder key =>
    cases read
    simp only [folderStatus]
    split
    · exact ⟨key, name, rfl, rfl, rfl, rfl⟩
    · exact ⟨key, _, rfl, rfl, rfl, rfl⟩
  | object object =>
    obtain ⟨key, size, modified, owner⟩ := object
    by_cases marker : key = .str folder
    · simp [itemStatus, listedStatus, marker] at read
    · rw [itemStatus, listedStatus, if_neg marker] at read
      obtain ⟨_, -, read⟩ := Outcome.bind_ok read
      cases key with
      | str key =>
        obtain ⟨own, read, same⟩ := Outcome.map_ok read
        obtain ⟨_, -, done⟩ := Outcome.bind_ok read
        cases done
        cases same
        exact ⟨key, _, rfl, rfl, rfl, rfl⟩
      | _ => cases read

section Kinds

variable {α : Type} {isFolder : α → Bool}

def foldersFirst (isFolder : α → Bool) (items : List α) : List α :=
  items.filter isFolder ++ items.filter fun a => !isFolder a

theorem foldersFirst_perm (items : List α) : (foldersFirst isFolder items).Perm items :=
  List.filter_append_perm isFolder items

theorem flatMap_foldersFirst_perm (cut : List (List α)) :
    (cut.flatMap (foldersFirst isFolder)).Perm cut.flatten := by
  induction cut with
  | nil => exact .refl _
  | cons items rest ih => exact (foldersFirst_perm items).append ih

end Kinds

theorem mapM_folders (keys : List String) :
    (keys.map .ok).mapM (folderStatus name <$> · : Except Failure String → _) =
      .ok (keys.map (folderStatus name)) := by
  induction keys with
  | nil => rfl
  | cons key rest ih =>
    rw [List.map_cons, List.mapM_cons, ih]
    rfl

theorem mapM_objects (objects : List ListedObject) :
    (objects.map .ok).mapM (· >>= listedStatus name folder) =
      match objects.findSome? fun object => faultOf name folder (.object object) with
      | some cause => .error cause
      | none => .ok (objects.map fun object => shownOf name folder (.object object)) := by
  induction objects with
  | nil => rfl
  | cons object rest ih =>
    have understood : ((.ok object : Except Failure ListedObject) >>= listedStatus name folder) =
        listedStatus name folder object := rfl
    rw [List.map_cons, List.mapM_cons, understood, ih, List.findSome?_cons, List.map_cons, faultOf,
      shownOf, itemStatus]
    cases listedStatus name folder object with
    | error cause => rfl
    | ok told =>
      cases rest.findSome? fun object => faultOf name folder (.object object) with
      | some cause => rfl
      | none => rfl

theorem findSome?_faultOf (items : List Listed) :
    items.findSome? (faultOf name folder) =
      (items.filterMap Listed.object?).findSome? (fun object => faultOf name folder (.object object)) := by
  induction items with
  | nil => rfl
  | cons listed rest ih =>
    cases listed with
    | folder key => exact ih
    | object object =>
      have first : (Listed.object object :: rest).filterMap Listed.object? =
        object :: rest.filterMap Listed.object? := rfl
      rw [first, List.findSome?_cons, List.findSome?_cons, ih]

theorem filterMap_shownOf (items : List Listed) :
    (foldersFirst Listed.isFolder items).filterMap (shownOf name folder) =
      (items.filterMap Listed.folder?).map (folderStatus name) ++
        (items.filterMap Listed.object?).filterMap fun object => shownOf name folder (.object object) := by
  rw [foldersFirst, List.filterMap_append, List.filterMap_filter, List.filterMap_filter,
    List.map_filterMap, List.filterMap_filterMap]
  congr 1
  · refine List.filterMap_congr fun listed _ => ?_
    cases listed <;> rfl
  · refine List.filterMap_congr fun listed _ => ?_
    cases listed <;> simp [Listed.isFolder, Listed.object?]

/-- A page shows its prefixes and then its objects, or the first fault of its items. -/
theorem pageStatuses_eq {page : Page} {items : List Listed} (holds : page.Holds items) :
    pageStatuses name folder page =
      match items.findSome? (faultOf name folder) with
      | some cause => .error cause
      | none => .ok ((foldersFirst Listed.isFolder items).filterMap (shownOf name folder)) := by
  rw [findSome?_faultOf, filterMap_shownOf, pageStatuses, holds.folders, holds.objects, mapM_folders,
    mapM_objects]
  cases (items.filterMap Listed.object?).findSome?
      fun object => faultOf name folder (.object object) with
  | some cause => rfl
  | none =>
    simp only [bind, Except.bind, pure, Except.pure, List.filterMap_map]
    rfl

theorem pagesStatuses_eq {pages : List Page} {cut : List (List Listed)}
    (holds : pages.Forall₂ Page.Holds cut) :
    pagesStatuses name folder (pages.map .ok) =
      match cut.flatten.findSome? (faultOf name folder) with
      | some cause => .error cause
      | none =>
        .ok ((cut.flatMap (foldersFirst Listed.isFolder)).filterMap (shownOf name folder)) := by
  induction holds with
  | nil => rfl
  | @cons page items pages rest first _ ih =>
    rw [List.map_cons, pagesStatuses, pageStatuses_eq first, ih, List.flatten_cons,
      List.findSome?_append, List.flatMap_cons, List.filterMap_append]
    cases items.findSome? (faultOf name folder) with
    | some cause => rfl
    | none =>
      cases rest.flatten.findSome? (faultOf name folder) with
      | some cause => rfl
      | none => rfl

end Bucket
end HarvestPlan
