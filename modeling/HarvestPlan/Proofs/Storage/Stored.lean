import HarvestPlan.Proofs.Storage.KeyPath
import HarvestPlan.Proofs.Storage.Shown

namespace HarvestPlan.Bucket

open Json (Value)

/-- An object. The time of its last change is one that can be told in milliseconds. -/
@[ext] structure Stored where
  key : String
  size : Nat
  modified : Value
  owner : Value
  milliseconds : Int
  timed : modifiedMilliseconds modified = .ok milliseconds

inductive Item where
  | folder (key : String)
  | file (object : Stored)

namespace Item

def key : Item → String
  | folder key => key
  | file object => object.key

def isFolder : Item → Bool
  | folder _ => true
  | file _ => false

def size : Item → Nat
  | folder _ => 0
  | file object => object.size

def status (name : Value) : Item → Status
  | folder key => folderStatus name key
  | file object =>
    { path := pathOf name object.key
      name := .str (lastSegment object.key)
      size := .int object.size
      modified := object.milliseconds
      owner := object.owner
      isDirectory := false
      permission := objectPermission }

def listed : Item → Listed
  | folder key => .folder key
  | file object =>
    .object ⟨.str object.key, .int object.size, object.modified, .ok object.owner⟩

@[simp] theorem status_path (name : Value) (item : Item) :
    (item.status name).path = pathOf name item.key := by
  cases item <;> rfl

@[simp] theorem status_isDirectory (name : Value) (item : Item) :
    (item.status name).isDirectory = item.isFolder := by
  cases item <;> rfl

@[simp] theorem status_size (name : Value) (item : Item) :
    (item.status name).size = .int item.size := by
  cases item <;> rfl

theorem listed_injective : Function.Injective listed := by
  intro item other same
  cases item with
  | folder key =>
    cases other with
    | folder otherKey => rw [Listed.folder.inj same]
    | file object => cases same
  | file object =>
    cases other with
    | folder key => cases same
    | file other =>
      simp only [listed, Listed.object.injEq, ListedObject.mk.injEq, Value.str.injEq, Value.int.injEq, Int.natCast_inj,
        Except.ok.injEq] at same
      obtain ⟨keys, sizes, modified, owners⟩ := same
      have timed := object.timed
      rw [modified, other.timed, Except.ok.injEq] at timed
      exact congrArg file (Stored.ext keys sizes modified owners timed.symm)

inductive IsOf (objects : List Stored) : Item → Prop
  | folder {key : String} {object : Stored} (ends : endsInSlash key = true)
      (present : object ∈ objects) (leads : key.toList <+: object.key.toList) :
      IsOf objects (.folder key)
  | file {object : Stored} (present : object ∈ objects) (plain : endsInSlash object.key = false) :
      IsOf objects (.file object)

def IsBelow (top : String) (item : Item) : Prop := top.toList <+: item.key.toList

/-- No slash follows but the one at the end of a folder. -/
def IsIn (top : String) (item : Item) : Prop :=
  ∃ name, '/' ∉ name ∧
    item.key.toList = top.toList ++ (name ++ if item.isFolder then ['/'] else [])

def Holds : Item → Item → Prop
  | folder key, other => other.IsBelow key
  | file object, other => other = file object

end Item

theorem endsInSlash_append {key : String} {front rest : List Char}
    (shape : key.toList = front ++ rest) (more : rest ≠ []) :
    endsInSlash key = true ↔ rest.getLast? = some '/' := by
  rw [endsInSlash, beq_iff_eq, shape, List.getLast?_append, List.getLast?_eq_some_getLast more]
  rfl

theorem eq_of_cut {first second : List Char} (free : '/' ∉ first) (otherFree : '/' ∉ second)
    {rest other : List Char} (same : first ++ '/' :: rest = second ++ '/' :: other) :
    first = second := by
  have cut := Text.cutFirst_append free rest
  rw [same, Text.cutFirst_append otherFree] at cut
  exact (congrArg Prod.fst (Option.some.inj cut)).symm

namespace Item

variable {objects : List Stored} {top : String} {item other child sibling : Item}

theorem IsIn.below (inside : item.IsIn top) : item.IsBelow top := by
  obtain ⟨name, -, shape⟩ := inside
  exact ⟨_, shape.symm⟩

theorem Holds.refl (item : Item) : item.Holds item := by
  cases item with
  | folder key => exact List.prefix_rfl
  | file object => rfl

theorem Holds.leads (holds : child.Holds item) : item.IsBelow child.key := by
  cases child with
  | folder key => exact holds
  | file object =>
    obtain rfl : item = file object := holds
    exact List.prefix_rfl

theorem IsIn.holds_below (inside : child.IsIn top) (holds : child.Holds item) :
    item.IsBelow top :=
  inside.below.trans holds.leads

theorem IsIn.longer (isOf : item.IsOf objects) (ends : endsInSlash top = true)
    (inside : item.IsIn top) : top.toList.length < item.key.toList.length := by
  obtain ⟨name, -, shape⟩ := inside
  have more : name ++ (if item.isFolder then ['/'] else []) ≠ [] := by
    intro none
    cases isOf with
    | folder => simp [isFolder] at none
    | file present plain =>
      have same : Item.key (file _) = top := String.toList_injective (by simpa [none] using shape)
      rw [← same] at ends
      exact Bool.noConfusion (ends.symm.trans plain)
  have length := congrArg List.length shape
  rw [List.length_append] at length
  have some_ := List.length_pos_iff.mpr more
  omega

/-- Below a folder, an item lies below one of the items directly in it. -/
theorem IsBelow.exists_child (isOf : item.IsOf objects) (ends : endsInSlash top = true)
    (below : item.IsBelow top) (other : item ≠ folder top) :
    ∃ child : Item, child.IsOf objects ∧ child.IsIn top ∧ child.Holds item := by
  obtain ⟨rest, shape⟩ := below
  have more : rest ≠ [] := by
    rintro rfl
    have same : item.key = top := String.toList_injective (by simpa using shape.symm)
    cases isOf with
    | folder => exact other (congrArg folder same)
    | file present plain =>
      rw [← same] at ends
      exact Bool.noConfusion (ends.symm.trans plain)
  by_cases deeper : '/' ∈ rest
  · obtain ⟨name, further, rfl, free⟩ := List.eq_append_cons_of_mem deeper
    let key := String.ofList (top.toList ++ (name ++ ['/']))
    have leads : key.toList <+: item.key.toList := ⟨further, by simp [key, ← shape]⟩
    have folderEnds : endsInSlash key = true :=
      endsInSlash_iff.mpr ⟨top.toList ++ name, by simp [key]⟩
    refine ⟨folder key, ?_, ⟨name, free, by simp [Item.key, isFolder, key]⟩, leads⟩
    cases isOf with
    | folder _ present held => exact .folder folderEnds present (leads.trans held)
    | file present => exact .folder folderEnds present leads
  · have open_ : endsInSlash item.key = false := by
      refine Bool.eq_false_iff.mpr fun slash => deeper ?_
      exact List.mem_of_getLast? ((endsInSlash_append shape.symm more).mp slash)
    cases isOf with
    | folder slash => exact Bool.noConfusion (slash.symm.trans open_)
    | file present plain =>
      exact ⟨_, .file present plain, ⟨rest, deeper, by simp [isFolder, shape]⟩, .refl _⟩

theorem IsBelow.exists_parent (isOf : item.IsOf objects) (ends : endsInSlash top = true)
    (below : item.IsBelow top) (other : item ≠ folder top) :
    ∃ parent, endsInSlash parent = true ∧ item.IsIn parent := by
  obtain ⟨room, deep⟩ : ∃ room, item.key.toList.length ≤ top.toList.length + room :=
    ⟨item.key.toList.length, by omega⟩
  induction room generalizing top with
  | zero =>
    obtain ⟨child, childOf, inside, holds⟩ := below.exists_child isOf ends other
    have longer := inside.longer childOf ends
    cases child with
    | folder key =>
      have least := List.IsPrefix.length_le holds
      simp only [Item.key] at longer
      omega
    | file object =>
      obtain rfl : item = file object := holds
      omega
  | succ room ih =>
    obtain ⟨child, childOf, inside, holds⟩ := below.exists_child isOf ends other
    have longer := inside.longer childOf ends
    by_cases same : item = child
    · exact ⟨top, ends, same ▸ inside⟩
    · cases childOf with
      | folder folderEnds =>
        simp only [Item.key] at longer
        exact ih folderEnds holds same (by omega)
      | file => exact absurd holds same

theorem IsIn.eq_of_holds (inside : child.IsIn top) (otherInside : sibling.IsIn top)
    (holds : child.Holds item) (otherHolds : sibling.Holds other) (same : item.key = other.key) :
    child.key = sibling.key ∧ child.isFolder = sibling.isFolder := by
  obtain ⟨name, free, shape⟩ := inside
  obtain ⟨otherName, otherFree, otherShape⟩ := otherInside
  have apart : ∀ {key : String} {object : Stored} {one two : List Char}, '/' ∉ two →
      key.toList = top.toList ++ (one ++ ['/']) → object.key.toList = top.toList ++ two →
      ¬key.toList <+: object.key.toList := by
    rintro key object one two none folderShape fileShape ⟨rest, leads⟩
    rw [folderShape, fileShape, List.append_assoc, List.append_cancel_left_eq] at leads
    exact none (leads ▸ by simp)
  cases child with
  | folder key =>
    obtain ⟨rest, leads⟩ := holds
    cases sibling with
    | folder otherKey =>
      obtain ⟨otherRest, otherLeads⟩ := otherHolds
      have both : key.toList ++ rest = otherKey.toList ++ otherRest := by
        rw [leads, otherLeads, same]
      simp only [Item.key, isFolder, if_true] at shape otherShape
      simp only [shape, otherShape, List.append_assoc, List.append_cancel_left_eq,
        List.singleton_append] at both
      obtain rfl := eq_of_cut free otherFree both
      exact ⟨String.toList_injective (shape.trans otherShape.symm), rfl⟩
    | file object =>
      obtain rfl : other = file object := otherHolds
      simp only [Item.key, isFolder, if_true, Bool.false_eq_true, if_false, List.append_nil] at *
      exact absurd ⟨rest, leads.trans (congrArg String.toList same)⟩
        (apart otherFree shape otherShape)
  | file object =>
    obtain rfl : item = file object := holds
    cases sibling with
    | folder key =>
      obtain ⟨rest, leads⟩ := otherHolds
      simp only [Item.key, isFolder, if_true, Bool.false_eq_true, if_false, List.append_nil] at *
      exact absurd ⟨rest, leads.trans (congrArg String.toList same.symm)⟩
        (apart free otherShape shape)
    | file otherObject =>
      obtain rfl : other = file otherObject := otherHolds
      exact ⟨same, rfl⟩

end Item
end HarvestPlan.Bucket
