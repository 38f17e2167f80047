import HarvestPlan.Config
import HarvestPlan.Proofs.Path.Segments
import HarvestPlan.Proofs.Path.Trimmed

namespace HarvestPlan.SourcePaths

open Text (cut join trim isBlank)

inductive KeepsItems : List (List Char) → List String → Prop
  | nil : KeepsItems [] []
  | blank {item : List Char} {items : List (List Char)} {paths : List String}
      (blank : ∀ c ∈ item, isBlank c = true) (rest : KeepsItems items paths) :
      KeepsItems (item :: items) paths
  | path {item : List Char} {items : List (List Char)} {path : String} {paths : List String}
      (filled : path ≠ "") (trimmed : Text.IsTrimmed isBlank path.toList)
      (around : Text.Surrounds isBlank path.toList item) (rest : KeepsItems items paths) :
      KeepsItems (item :: items) (path :: paths)

def Lists (text : String) (paths : List String) : Prop :=
  ∃ items, items ≠ [] ∧ (∀ item ∈ items, ',' ∉ item) ∧ text.toList = join ',' items ∧
    KeepsItems items paths

def pathOf? (item : List Char) : Option String :=
  if trim isBlank item = [] then none else some (String.ofList (trim isBlank item))

theorem parse_eq (text : String) : parse text = (cut ',' text.toList).filterMap pathOf? := by
  rw [parse, List.filterMap_map]
  rfl

theorem pathOf_eq_none_iff {item : List Char} :
    pathOf? item = none ↔ ∀ c ∈ item, isBlank c = true := by
  rw [← Text.trim_eq_nil_iff, pathOf?]
  by_cases blank : trim isBlank item = [] <;> simp [blank]

theorem pathOf_eq_some_iff {item : List Char} {path : String} :
    pathOf? item = some path ↔ path ≠ "" ∧ Text.IsTrimmed isBlank path.toList ∧
      Text.Surrounds isBlank path.toList item := by
  rw [← Text.trim_eq_iff, pathOf?]
  by_cases blank : trim isBlank item = []
  · rw [if_pos blank, blank]
    constructor
    · intro absent
      cases absent
    · rintro ⟨filled, empty⟩
      exact absurd (String.toList_eq_nil_iff.mp empty.symm) filled
  · rw [if_neg blank, Option.some.injEq]
    constructor
    · rintro rfl
      simpa using blank
    · rintro ⟨-, same⟩
      rw [same, String.ofList_toList]

theorem keepsItems_iff {items : List (List Char)} {paths : List String} :
    items.filterMap pathOf? = paths ↔ KeepsItems items paths := by
  constructor
  · rintro rfl
    induction items with
    | nil => exact .nil
    | cons item items rest =>
      cases kept : pathOf? item with
      | none =>
        rw [List.filterMap_cons_none kept]
        exact .blank (pathOf_eq_none_iff.mp kept) rest
      | some path =>
        rw [List.filterMap_cons_some kept]
        obtain ⟨filled, trimmed, around⟩ := pathOf_eq_some_iff.mp kept
        exact .path filled trimmed around rest
  · intro keeps
    induction keeps with
    | nil => rfl
    | blank blank _ ih => rw [List.filterMap_cons_none (pathOf_eq_none_iff.mpr blank), ih]
    | path filled trimmed around _ ih =>
      rw [List.filterMap_cons_some (pathOf_eq_some_iff.mpr ⟨filled, trimmed, around⟩), ih]

theorem parse_eq_iff {text : String} {paths : List String} :
    parse text = paths ↔ Lists text paths := by
  rw [parse_eq]
  constructor
  · intro listed
    exact ⟨cut ',' text.toList, Text.cut_ne_nil _ _, fun _ => Text.notMem_of_mem_cut,
      (Text.join_cut _ _).symm, keepsItems_iff.mp listed⟩
  · rintro ⟨items, some_, free, shape, keeps⟩
    rw [shape, Text.cut_join some_ free]
    exact keepsItems_iff.mpr keeps

theorem parse_lists (text : String) : Lists text (parse text) := parse_eq_iff.mp rfl

theorem parse_eq_nil_iff {text : String} :
    parse text = [] ↔ ∀ c ∈ text.toList, c = ',' ∨ isBlank c = true := by
  rw [parse_eq, List.filterMap_eq_nil_iff]
  constructor
  · intro none c present
    by_cases comma : c = ','
    · exact .inl comma
    · obtain ⟨item, kept, inside⟩ := Text.exists_mem_cut present comma
      exact .inr (pathOf_eq_none_iff.mp (none item kept) c inside)
  · intro blank item kept
    apply pathOf_eq_none_iff.mpr
    intro c inside
    have present : c ∈ text.toList := by
      rw [← Text.join_cut ',' text.toList]
      exact Text.mem_join kept inside
    apply (blank c present).resolve_left
    rintro rfl
    exact Text.notMem_of_mem_cut kept inside

theorem ne_empty_of_mem_parse {text path : String} (present : path ∈ parse text) : path ≠ "" := by
  rw [parse_eq] at present
  obtain ⟨item, -, kept⟩ := List.mem_filterMap.mp present
  exact (pathOf_eq_some_iff.mp kept).1

end HarvestPlan.SourcePaths
