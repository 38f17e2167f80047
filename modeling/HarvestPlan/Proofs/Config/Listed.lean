import HarvestPlan.Proofs.Config.Paths

namespace HarvestPlan.SourcePaths

open Text (cut join isBlank)

structure IsItem (path : String) : Prop where
  filled : path ≠ ""
  single : ',' ∉ path.toList
  stripped : Text.strip path = path

inductive Stretch where
  | blank (blanks : List Char)
  | item (before : List Char) (path : String) (after : List Char)

namespace Stretch

def chars : Stretch → List Char
  | blank blanks => blanks
  | item before path after => before ++ (path.toList ++ after)

def path? : Stretch → Option String
  | blank _ => none
  | item _ path _ => some path

def IsLoose : Stretch → Prop
  | blank blanks => ∀ c ∈ blanks, isBlank c = true
  | item before _ after => (∀ c ∈ before, isBlank c = true) ∧ ∀ c ∈ after, isBlank c = true

end Stretch

/-- Paths in order, with white space around them and with blank items anywhere. -/
structure Loosens (stretches : List Stretch) (paths : List String) : Prop where
  loose : ∀ stretch ∈ stretches, stretch.IsLoose
  paths : stretches.filterMap Stretch.path? = paths

def written (stretches : List Stretch) : String :=
  String.ofList (join ',' (stretches.map Stretch.chars))

theorem strip_eq_iff {path : String} :
    Text.strip path = path ↔ Text.IsTrimmed isBlank path.toList := by
  rw [Text.strip, ← String.toList_inj, String.toList_ofList, Text.trim_eq_iff]
  exact ⟨And.left, fun trimmed => ⟨trimmed, [], [], nofun, nofun, by simp⟩⟩

theorem isItem_of_mem_parse {text path : String} (present : path ∈ parse text) : IsItem path := by
  rw [parse_eq] at present
  obtain ⟨item, inside, kept⟩ := List.mem_filterMap.mp present
  obtain ⟨filled, trimmed, before, after, -, -, shape⟩ := pathOf_eq_some_iff.mp kept
  refine ⟨filled, fun comma => Text.notMem_of_mem_cut inside ?_, strip_eq_iff.mpr trimmed⟩
  rw [shape]
  exact List.mem_append_right _ (List.mem_append_left _ comma)

theorem Stretch.comma_notMem {stretch : Stretch} (loose : stretch.IsLoose)
    (items : ∀ path, stretch.path? = some path → IsItem path) : ',' ∉ stretch.chars := by
  have notBlank : isBlank ',' = false := by decide
  cases stretch with
  | blank blanks =>
    intro comma
    simp [loose ',' comma] at notBlank
  | item before path after =>
    intro comma
    rcases List.mem_append.mp comma with comma | comma
    · simp [loose.1 ',' comma] at notBlank
    · rcases List.mem_append.mp comma with comma | comma
      · exact (items path rfl).single comma
      · simp [loose.2 ',' comma] at notBlank

theorem Stretch.pathOf_chars {stretch : Stretch} (loose : stretch.IsLoose)
    (items : ∀ path, stretch.path? = some path → IsItem path) :
    pathOf? stretch.chars = stretch.path? := by
  cases stretch with
  | blank blanks => exact pathOf_eq_none_iff.mpr loose
  | item before path after =>
    have isItem := items path rfl
    exact pathOf_eq_some_iff.mpr ⟨isItem.filled, strip_eq_iff.mp isItem.stripped, before, after,
      loose.1, loose.2, rfl⟩

theorem parse_written {stretches : List Stretch} {paths : List String}
    (loosens : Loosens stretches paths) (items : ∀ path ∈ paths, IsItem path) :
    parse (written stretches) = paths := by
  obtain ⟨loose, rfl⟩ := loosens
  have each : ∀ stretch ∈ stretches, ∀ path, stretch.path? = some path → IsItem path :=
    fun stretch present path known => items path (List.mem_filterMap.mpr ⟨stretch, present, known⟩)
  by_cases none : stretches = []
  · subst none
    rfl
  · have free : ∀ item ∈ stretches.map Stretch.chars, ',' ∉ item := by
      intro item present
      obtain ⟨stretch, inside, rfl⟩ := List.mem_map.mp present
      exact Stretch.comma_notMem (loose stretch inside) (each stretch inside)
    rw [parse_eq, written, String.toList_ofList, Text.cut_join (by simpa using none) free,
      List.filterMap_map]
    exact List.filterMap_congr fun stretch present =>
      Stretch.pathOf_chars (loose stretch present) (each stretch present)

theorem exists_written (text : String) :
    ∃ stretches, Loosens stretches (parse text) ∧ written stretches = text := by
  have each : ∀ item : List Char, ∃ stretch : Stretch,
      stretch.IsLoose ∧ stretch.path? = pathOf? item ∧ stretch.chars = item := by
    intro item
    cases kept : pathOf? item with
    | none => exact ⟨.blank item, pathOf_eq_none_iff.mp kept, rfl, rfl⟩
    | some path =>
      obtain ⟨-, -, before, after, opens, ends, shape⟩ := pathOf_eq_some_iff.mp kept
      exact ⟨.item before path after, ⟨opens, ends⟩, rfl, shape.symm⟩
  have all : ∀ items : List (List Char), ∃ stretches : List Stretch,
      Loosens stretches (items.filterMap pathOf?) ∧ stretches.map Stretch.chars = items := by
    intro items
    induction items with
    | nil => exact ⟨[], ⟨nofun, rfl⟩, rfl⟩
    | cons item items ih =>
      obtain ⟨stretch, loose, path, chars⟩ := each item
      obtain ⟨stretches, others, shape⟩ := ih
      refine ⟨stretch :: stretches, ⟨List.forall_mem_cons.mpr ⟨loose, others.loose⟩, ?_⟩, ?_⟩
      · rw [List.filterMap_cons, List.filterMap_cons, path, others.paths]
      · rw [List.map_cons, chars, shape]
  obtain ⟨stretches, loosens, shape⟩ := all (cut ',' text.toList)
  refine ⟨stretches, parse_eq text ▸ loosens, ?_⟩
  rw [written, shape, Text.join_cut, String.ofList_toList]

def bare (paths : List String) : List Stretch := paths.map fun path => .item [] path []

theorem bare_loosens (paths : List String) : Loosens (bare paths) paths := by
  constructor
  · intro stretch present
    obtain ⟨path, -, rfl⟩ := List.mem_map.mp present
    exact ⟨nofun, nofun⟩
  · rw [bare, List.filterMap_map]
    exact List.filterMap_some

theorem written_bare (paths : List String) : written (bare paths) = ",".intercalate paths := by
  have chars : (bare paths).map Stretch.chars = paths.map String.toList := by
    rw [bare, List.map_map]
    exact List.map_congr_left fun path _ => List.append_nil path.toList
  rw [written, chars, Text.join_eq_intercalate, ← String.toList_inj, String.toList_ofList,
    String.toList_intercalate]
  rfl

/-- The paths that a text lists are items and are listed again by themselves, and items are listed
    by exactly the texts that loosen them. -/
theorem parse_roundTrips (text : String) :
    ((∀ path ∈ parse text, IsItem path) ∧
      parse (",".intercalate (parse text)) = parse text) ∧
    ∀ paths, (∀ path ∈ paths, IsItem path) →
      (parse text = paths ↔ ∃ stretches, Loosens stretches paths ∧ written stretches = text) := by
  have own : ∀ path ∈ parse text, IsItem path := fun path => isItem_of_mem_parse
  refine ⟨⟨own, ?_⟩, fun paths items => ⟨?_, ?_⟩⟩
  · rw [← written_bare]
    exact parse_written (bare_loosens _) own
  · rintro rfl
    exact exists_written text
  · rintro ⟨stretches, loosens, rfl⟩
    exact parse_written loosens items

/-- The same path twice, with blank items in every position and blanks of several scripts. -/
theorem parse_roundTrips_blanks :
    (∀ path ∈ parse ",\u3000/a b\x1f,, \t,/a b,", IsItem path) ∧
      (∀ path ∈ ["/a b", "/a b"], IsItem path) ∧
      parse ",\u3000/a b\x1f,, \t,/a b," = ["/a b", "/a b"] := by
  have isItem : IsItem "/a b" := ⟨by decide, by decide, by decide⟩
  have items : ∀ path ∈ ["/a b", "/a b"], IsItem path := by simp [isItem]
  have told := parse_roundTrips ",\u3000/a b\x1f,, \t,/a b,"
  have loosens : Loosens [.blank [], .item ['\u3000'] "/a b" ['\x1f'], .blank [], .blank [' ', '\t'],
      .item [] "/a b" [], .blank []] ["/a b", "/a b"] := by
    have blanks : isBlank '\u3000' ∧ isBlank '\x1f' ∧ isBlank ' ' ∧ isBlank '\t' := by decide
    exact ⟨by simp [Stretch.IsLoose, blanks], rfl⟩
  exact ⟨told.1.1, items, (told.2 _ items).mpr ⟨_, loosens, by decide⟩⟩

end HarvestPlan.SourcePaths
