import Mathlib.Data.List.TakeWhile
import HarvestPlan.Proofs.Outcome
import HarvestPlan.Proofs.Path.Segments
import HarvestPlan.Proofs.Path.Trimmed
import HarvestPlan.Storage.Bucket

namespace HarvestPlan.Bucket

open Json (Value)

/-- The path of a URI ends before the first two, and is read without the others. -/
def lostCharacters : List Char := ['?', '#', '\t', '\n', '\r']

def IsKept (key : String) : Prop := ∀ c ∈ key.toList, c ∉ lostCharacters

instance (key : String) : Decidable (IsKept key) :=
  List.decidableBAll (· ∉ lostCharacters) key.toList

/-- A bucket name that is read as a host: it ends nowhere, has no brackets and no character that is
    another spelling of a separator. -/
def IsOrdinary (name : String) : Prop :=
  ∀ c ∈ name.toList, c ∉ ['/', '[', ']'] ∧ c ∉ lostCharacters ∧ c ∉ Uri.separatorForms

instance (name : String) : Decidable (IsOrdinary name) :=
  List.decidableBAll (fun c => c ∉ ['/', '[', ']'] ∧ c ∉ lostCharacters ∧ c ∉ Uri.separatorForms)
    name.toList

def IsKey (key : String) : Prop := [] ∉ (Text.cut '/' key.toList).dropLast

instance (key : String) : Decidable (IsKey key) := inferInstanceAs (Decidable (¬ _))

def IsPrefix (key : String) : Prop := key = "" ∨ endsInSlash key = true

instance (key : String) : Decidable (IsPrefix key) := inferInstanceAs (Decidable (_ ∨ _))

def readBack (key : List Char) : List Char :=
  Uri.before '?' (Uri.before '#' (key.filter fun c => c != '\t' && c != '\n' && c != '\r'))

theorem takeAuthority_host {name : List Char} (inside : ∀ c ∈ name, Uri.endsAuthority c = false)
    (rest : List Char) :
    Uri.takeAuthority ('/' :: '/' :: (name ++ '/' :: rest)) = (name, '/' :: rest) := by
  have within : ∀ c ∈ name, (!Uri.endsAuthority c) = true := by
    intro c present
    simp [inside c present]
  have ends : (!Uri.endsAuthority '/') = false := by decide
  simp only [Uri.takeAuthority, List.takeWhile_append_of_pos within,
    List.dropWhile_append_of_pos within, List.takeWhile_cons, List.dropWhile_cons, ends]
  simp

theorem IsOrdinary.host {name : String} (ordinary : IsOrdinary name) :
    Uri.checkAuthority name.toList = .ok () := by
  have open_ : '[' ∉ name.toList := fun present => (ordinary _ present).1 (by simp)
  have shut : ']' ∉ name.toList := fun present => (ordinary _ present).1 (by simp)
  have plain : name.toList.any Uri.separatorForms.contains = false := by
    simp only [List.any_eq_false, List.contains_eq_mem, decide_eq_true_eq]
    exact fun c present => (ordinary c present).2.2
  simp [Uri.checkAuthority, Host.checkAuthority, open_, shut, plain, bind, Except.bind, pure,
    Except.pure]

theorem IsOrdinary.cleaned {name : String} (ordinary : IsOrdinary name) :
    name.toList.filter (fun c => c != '\t' && c != '\n' && c != '\r') = name.toList := by
  refine List.filter_eq_self.mpr ?_
  intro c present
  have kept := (ordinary c present).2.1
  simp only [lostCharacters, List.mem_cons, List.not_mem_nil, or_false, not_or] at kept
  simp [kept]

theorem parse_pathOf {name : String} (ordinary : IsOrdinary name) (key : String) :
    Uri.parse (pathOf (.str name) key) =
      .ok ⟨"s3a", String.ofList ('/' :: readBack key.toList)⟩ := by
  have inside : ∀ c ∈ name.toList, Uri.endsAuthority c = false := by
    intro c present
    obtain ⟨separators, lost, -⟩ := ordinary c present
    simp only [lostCharacters, List.mem_cons, List.not_mem_nil, or_false, not_or] at separators lost
    simp [Uri.endsAuthority, separators, lost]
  have cleaned : Uri.cleaned (pathOf (.str name) key).toList = 's' :: '3' :: 'a' :: ':' :: '/' ::
      '/' :: (name.toList ++ '/' :: key.toList.filter fun c => c != '\t' && c != '\n' && c != '\r') := by
    have shape : (pathOf (.str name) key).toList =
        's' :: '3' :: 'a' :: ':' :: '/' :: '/' :: (name.toList ++ '/' :: key.toList) := by
      simp [pathOf, Value.text, String.toList_append]
    simp [shape, Uri.cleaned, ordinary.cleaned]
  have scheme : ∀ rest, Uri.takeScheme ('s' :: '3' :: 'a' :: ':' :: rest) = ("s3a", rest) := by
    intro rest
    simp [Uri.takeScheme, Text.cutFirst?, Uri.isSchemeChar]
  have other : Uri.parameterSchemes.contains "s3a" = false := by decide
  unfold Uri.parse
  rw [cleaned, scheme]
  simp only [takeAuthority_host inside, ordinary.host, Outcome.ok_mapError, other]
  simp [bind, Except.bind, pure, Except.pure, readBack, Uri.before]

theorem fromFirst_pathOf (name key : String) :
    (Text.fromFirst? [':', '/', '/'] (pathOf (.str name) key).toList).isSome = true := by
  have shape : (pathOf (.str name) key).toList =
      's' :: '3' :: 'a' :: ':' :: '/' :: '/' :: (name.toList ++ '/' :: key.toList) := by
    simp [pathOf, Value.text, String.toList_append]
  simp [shape, Text.fromFirst?, List.isPrefixOf]

theorem keyOf_pathOf {name : String} (ordinary : IsOrdinary name) (key : String) :
    keyOf (pathOf (.str name) key) =
      .ok (String.ofList ((readBack key.toList).dropWhile isSlash)) := by
  obtain ⟨marked, found⟩ := Option.isSome_iff_exists.mp (fromFirst_pathOf name key)
  unfold keyOf
  rw [found]
  simp [parse_pathOf ordinary, bind, Except.bind, pure, Except.pure, Functor.map, Except.map,
    isSlash]

theorem IsKept.readBack {key : String} (kept : IsKept key) : readBack key.toList = key.toList := by
  have others : ∀ c ∈ key.toList, c ≠ '?' ∧ c ≠ '#' ∧ c ≠ '\t' ∧ c ≠ '\n' ∧ c ≠ '\r' := by
    intro c present
    simpa [lostCharacters] using kept c present
  have whole : key.toList.filter (fun c => c != '\t' && c != '\n' && c != '\r') = key.toList := by
    refine List.filter_eq_self.mpr fun c present => ?_
    obtain ⟨-, -, tab, feed, back⟩ := others c present
    simp [tab, feed, back]
  have fragment : Uri.before '#' key.toList = key.toList :=
    List.takeWhile_eq_self_iff.mpr fun c present => by simp [(others c present).2.1]
  have query : Uri.before '?' key.toList = key.toList :=
    List.takeWhile_eq_self_iff.mpr fun c present => by simp [(others c present).1]
  rw [Bucket.readBack, whole, fragment, query]

theorem notLost_of_mem_readBack {key : List Char} {c : Char} (present : c ∈ readBack key) :
    c ∉ lostCharacters := by
  have cleaned := (List.takeWhile_sublist _).subset ((List.takeWhile_sublist _).subset present)
  have query := List.mem_takeWhile_imp present
  have fragment := List.mem_takeWhile_imp ((List.takeWhile_sublist _).subset present)
  have others := (List.mem_filter.mp cleaned).2
  simp only [bne_iff_ne, ne_eq, Bool.and_eq_true] at query fragment others
  simp [lostCharacters, query, fragment, others]

theorem IsKey.head {key : String} (proper : IsKey key) : key.toList.head? ≠ some '/' := by
  intro leads
  obtain ⟨rest, shape⟩ := List.head?_eq_some_iff.mp leads
  refine proper ?_
  have more := Text.cut_ne_nil '/' rest
  rw [shape, Text.cut, if_pos rfl, List.dropLast_cons_of_ne_nil more]
  exact List.mem_cons_self

theorem dropWhile_isSlash {key : List Char} (open_ : key.head? ≠ some '/') :
    key.dropWhile isSlash = key := by
  cases key with
  | nil => rfl
  | cons c rest =>
    have other : c ≠ '/' := fun same => open_ (by simp [same])
    simp [isSlash, other]

theorem keyOf_pathOf_eq_iff {name : String} (ordinary : IsOrdinary name) (key : String) :
    keyOf (pathOf (.str name) key) = .ok key ↔ IsKept key ∧ key.toList.head? ≠ some '/' := by
  rw [keyOf_pathOf ordinary, Except.ok.injEq, ← String.toList_inj, String.toList_ofList]
  constructor
  · intro same
    refine ⟨?_, ?_⟩
    · intro c present
      rw [← same] at present
      exact notLost_of_mem_readBack ((List.dropWhile_sublist _).subset present)
    · intro leads
      have first := List.head?_dropWhile_not isSlash (readBack key.toList)
      rw [same, leads] at first
      simp [isSlash] at first
  · rintro ⟨kept, open_⟩
    rw [kept.readBack]
    exact dropWhile_isSlash open_

theorem endsInSlash_iff {key : String} :
    endsInSlash key = true ↔ ∃ front, key.toList = front ++ ['/'] := by
  rw [endsInSlash, beq_iff_eq, List.getLast?_eq_some_iff]

theorem isEmpty_of_slash {key : String} (slash : '/' ∈ key.toList) : key.isEmpty = false := by
  refine Bool.eq_false_iff.mpr fun empty => ?_
  rw [String.isEmpty_iff.mp empty] at slash
  cases slash

theorem IsKey.folderOf {key : String} (proper : IsKey key) (folder : IsPrefix key) :
    folderOf key = key := by
  rcases folder with rfl | ends
  · rfl
  · obtain ⟨parent, shape⟩ := endsInSlash_iff.mp ends
    have inner : parent.getLast? ≠ some '/' := by
      intro doubled
      obtain ⟨start, again⟩ := List.getLast?_eq_some_iff.mp doubled
      refine proper ?_
      rw [shape, again, Text.cut_append, Text.cut_append]
      simp [Text.cut]
    have open_ : ∀ c, parent.getLast? = some c → isSlash c = false := by
      rintro c last
      have other : c ≠ '/' := fun same => inner (same ▸ last)
      simpa [isSlash] using other
    have trimmed : Text.trimEnd isSlash (parent ++ ['/']) = parent := by
      rw [Text.trimEnd_concat_of_dropped (by decide), Text.trimEnd_eq_self open_]
    have more : key.isEmpty = false := isEmpty_of_slash (by simp [shape])
    apply String.toList_injective
    simp [Bucket.folderOf, more, withoutTrailing, shape, trimmed]

theorem mem_folderOf {key : String} {c : Char} (present : c ∈ (Bucket.folderOf key).toList) :
    c ∈ key.toList ∨ c = '/' := by
  unfold Bucket.folderOf at present
  split at present
  · cases present
  · simp only [withoutTrailing, String.toList_append, String.toList_ofList, List.mem_append] at present
    rcases present with held | slash
    · exact .inl (Text.mem_of_mem_trimEnd held)
    · exact .inr (by simpa using slash)

def listedPrefix (path : String) : Except Failure String := Bucket.folderOf <$> keyOf path

theorem backend_list (bucket : Bucket) (name : Value) (path : String) :
    (bucket.backend name).list path = ⟨[], do
      let folder ← listedPrefix path
      sortByName (← pagesStatuses name folder (bucket.pages folder))⟩ := by
  simp only [backend, listKey, listedPrefix, map_eq_pure_bind, bind_assoc, pure_bind]

theorem listedPrefix_pathOf_eq_iff {name : String} (ordinary : IsOrdinary name) {key : String}
    (proper : IsKey key) (folder : IsPrefix key) :
    listedPrefix (pathOf (.str name) key) = .ok key ↔ IsKept key := by
  constructor
  · intro listed c present
    obtain ⟨own, read, rfl⟩ := Outcome.map_ok listed
    rw [keyOf_pathOf ordinary, Except.ok.injEq] at read
    rcases mem_folderOf present with held | rfl
    · rw [← read, String.toList_ofList] at held
      exact notLost_of_mem_readBack ((List.dropWhile_sublist _).subset held)
    · decide
  · intro kept
    have read := (keyOf_pathOf_eq_iff ordinary key).mpr ⟨kept, proper.head⟩
    simp [listedPrefix, read, proper.folderOf folder, Functor.map, Except.map]

end HarvestPlan.Bucket
