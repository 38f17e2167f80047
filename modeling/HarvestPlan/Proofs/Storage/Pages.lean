import HarvestPlan.Proofs.Storage.ByName
import HarvestPlan.Proofs.Storage.Honest

namespace HarvestPlan

open Json (Value)
open scoped List

namespace Bucket

section Kinds

variable {α : Type} {isFolder : α → Bool} {a b : α}

def Together (pages : List (List α)) (a b : α) : Prop := ∃ page ∈ pages, a ∈ page ∧ b ∈ page

theorem filter_foldersFirst (isFolder : α → Bool) (pages : List (List α)) (kind : Bool) :
    (pages.flatMap (foldersFirst isFolder)).filter (isFolder · == kind) =
      pages.flatten.filter (isFolder · == kind) := by
  induction pages with
  | nil => rfl
  | cons page rest ih =>
    rw [List.flatMap_cons, List.flatten_cons, List.filter_append, List.filter_append, ih]
    congr 1
    cases kind <;> simp [foldersFirst, List.filter_filter]

theorem pair_foldersFirst_same (pages : List (List α)) (same : isFolder a = isFolder b) :
    [a, b] <+ pages.flatMap (foldersFirst isFolder) ↔ [a, b] <+ pages.flatten := by
  have kinds := filter_foldersFirst isFolder pages (isFolder b)
  have one : ∀ items : List α, [a, b] <+ items.filter (isFolder · == isFolder b) ↔
      [a, b] <+ items := by
    intro items
    simp [Sorting.pair_filter, same]
  rw [← one, kinds, one]

/-- An object stays before a folder unless both are on one page. -/
theorem pair_foldersFirst_mixed {pages : List (List α)} (once : pages.flatten.Nodup)
    (object : isFolder a = false) (folder : isFolder b = true) :
    [a, b] <+ pages.flatMap (foldersFirst isFolder) ↔
      [a, b] <+ pages.flatten ∧ ¬Together pages a b := by
  induction pages with
  | nil => simp
  | cons page rest ih =>
    obtain ⟨-, onceRest, apart⟩ := List.nodup_append.mp (List.flatten_cons ▸ once)
    have notOnPage : ¬[a, b] <+ foldersFirst isFolder page := by
      rw [foldersFirst, Sorting.pair_append, Sorting.pair_filter, Sorting.pair_filter,
        List.mem_filter, List.mem_filter]
      simp [object, folder]
    have onPage : a ∈ foldersFirst isFolder page ↔ a ∈ page := (foldersFirst_perm page).mem_iff
    have later : b ∈ rest.flatMap (foldersFirst isFolder) ↔ b ∈ rest.flatten :=
      (flatMap_foldersFirst_perm rest).mem_iff
    have together : Together (page :: rest) a b ↔ a ∈ page ∧ b ∈ page ∨ Together rest a b := by
      simp [Together]
    have below : Together rest a b → a ∈ rest.flatten := by
      rintro ⟨other, held, inside, -⟩
      exact List.mem_flatten.mpr ⟨other, held, inside⟩
    rw [List.flatMap_cons, List.flatten_cons, Sorting.pair_append, Sorting.pair_append, ih onceRest,
      onPage, later, together, not_or]
    -- A pair lies on the first page, begins on it, or lies on later ones; on the first page the order
    -- is turned round.
    constructor
    · rintro (within | ⟨first, second⟩ | ⟨pair, separate⟩)
      · exact absurd within notOnPage
      · exact ⟨.inr (.inl ⟨first, second⟩), fun both => apart b both.2 b second rfl,
          fun held => apart a first a (below held) rfl⟩
      · exact ⟨.inr (.inr pair), fun both => apart a both.1 a (pair.subset (by simp)) rfl, separate⟩
    · rintro ⟨within | cut | pair, notHere, separate⟩
      · exact absurd ⟨within.subset (by simp), within.subset (by simp)⟩ notHere
      · exact .inr (.inl cut)
      · exact .inr (.inr ⟨pair, separate⟩)

end Kinds

def shownPages (name : Value) (folder : String) (cut : List (List Listed)) : List (List Status) :=
  cut.map (·.filterMap (shownOf name folder))

def gathered (pages : List (List Status)) : List Status :=
  pages.flatMap (foldersFirst (·.isDirectory))

theorem filterMap_foldersFirst (name folder : String) (items : List Listed) :
    (foldersFirst Listed.isFolder items).filterMap (shownOf (.str name) folder) =
      foldersFirst (·.isDirectory) (items.filterMap (shownOf (.str name) folder)) := by
  have kinds : ∀ (kind : Bool → Bool), (items.filter (kind ·.isFolder)).filterMap
      (shownOf (.str name) folder) =
        (items.filterMap (shownOf (.str name) folder)).filter (kind ·.isDirectory) := by
    intro kind
    rw [List.filterMap_filter, List.filter_filterMap]
    refine List.filterMap_congr fun listed _ => ?_
    cases shown : shownOf (.str name) folder listed with
    | none => simp
    | some status =>
      obtain ⟨-, -, -, -, -, same⟩ := shownOf_some shown
      simp [Option.filter, same]
  have folders : (items.filter Listed.isFolder).filterMap (shownOf (.str name) folder) =
      (items.filterMap (shownOf (.str name) folder)).filter (·.isDirectory) := kinds id
  rw [foldersFirst, foldersFirst, List.filterMap_append, folders, kinds (!·)]

theorem gathered_shownPages (name folder : String) (cut : List (List Listed)) :
    gathered (shownPages (.str name) folder cut) =
      (cut.flatMap (foldersFirst Listed.isFolder)).filterMap (shownOf (.str name) folder) := by
  rw [gathered, shownPages, List.flatMap_map, List.filterMap_flatMap]
  exact congrArg (List.flatMap · cut) (funext fun items =>
    (filterMap_foldersFirst name folder items).symm)

theorem flatten_shownPages (name : Value) (folder : String) (cut : List (List Listed)) :
    (shownPages name folder cut).flatten = cut.flatten.filterMap (shownOf name folder) :=
  List.filterMap_flatten.symm

theorem nodup_shownPages {name folder : String} {cut : List (List Listed)}
    (once : (cut.flatten.map Listed.key).Nodup) : (shownPages (.str name) folder cut).flatten.Nodup := by
  rw [flatten_shownPages, List.Nodup, List.pairwise_filterMap]
  refine (List.pairwise_map.mp once).imp ?_
  rintro listed other apart status shown _ otherShown rfl
  obtain ⟨key, -, own, path, -⟩ := shownOf_some shown
  obtain ⟨otherKey, -, otherOwn, otherPath, -⟩ := shownOf_some otherShown
  have same : key = otherKey := pathOf_injective (.str name) (path.symm.trans otherPath)
  exact apart (by rw [own, otherOwn, same])

/-- The same statuses, of each kind in the same order, with the same name at every place. -/
structure SameButTies (others statuses : List Status) : Prop where
  names : others.map (·.name.text) = statuses.map (·.name.text)
  kinds : ∀ kind, others.filter (·.isDirectory == kind) = statuses.filter (·.isDirectory == kind)

/-- Of an object and a later folder of its name, both or neither of two ways to cut make one page. -/
def SeparateAlike (pages others : List (List Status)) : Prop :=
  ∀ object folder, [object, folder] <+ pages.flatten → object.isDirectory = false →
    folder.isDirectory = true → object.name.text = folder.name.text →
    (Together pages object folder ↔ Together others object folder)

section Cuts

variable {pages others : List (List Status)} {object folder : Status}

theorem nodup_gathered (once : pages.flatten.Nodup) : (gathered pages).Nodup :=
  (flatMap_foldersFirst_perm pages).nodup_iff.mpr once

theorem gathered_perm (same : others.flatten = pages.flatten) :
    (gathered others).Perm (gathered pages) := by
  have first : (gathered others).Perm others.flatten := flatMap_foldersFirst_perm others
  rw [same] at first
  exact first.trans (flatMap_foldersFirst_perm pages).symm

theorem sameButTies_byName (once : pages.flatten.Nodup) (same : others.flatten = pages.flatten) :
    SameButTies (byName (gathered others)) (byName (gathered pages)) := by
  have rearranged : (byName (gathered others)).Perm (byName (gathered pages)) :=
    ((byName_perm _).trans (gathered_perm same)).trans (byName_perm _).symm
  refine ⟨?_, fun kind => ?_⟩
  · refine (rearranged.map _).eq_of_pairwise ?_
      (List.pairwise_map.mpr (byName_pairwise _)) (List.pairwise_map.mpr (byName_pairwise _))
    exact fun name other _ _ => String.le_antisymm
  · refine Sorting.filter_mergeSort_eq byName_trans byName_total (nodup_gathered once)
      (gathered_perm same) fun a b isKind otherIsKind _ _ pair => ?_
    have alike : a.isDirectory = b.isDirectory :=
      (beq_iff_eq.mp isKind).trans (beq_iff_eq.mp otherIsKind).symm
    rw [gathered, pair_foldersFirst_same _ alike] at pair ⊢
    rwa [← same]

theorem pair_gathered (once : pages.flatten.Nodup) (isObject : object.isDirectory = false)
    (isFolder : folder.isDirectory = true) :
    [object, folder] <+ gathered pages ↔
      [object, folder] <+ pages.flatten ∧ ¬Together pages object folder :=
  pair_foldersFirst_mixed once isObject isFolder

theorem together_of_byName_eq (once : pages.flatten.Nodup) (same : others.flatten = pages.flatten)
    (equal : byName (gathered others) = byName (gathered pages))
    (pair : [object, folder] <+ pages.flatten) (isObject : object.isDirectory = false)
    (isFolder : folder.isDirectory = true) (names : object.name.text = folder.name.text)
    (together : Together pages object folder) : Together others object folder := by
  by_contra apart
  have first : [object, folder] <+ gathered others :=
    (pair_gathered (same ▸ once) isObject isFolder).mpr ⟨same ▸ pair, apart⟩
  have kept := Sorting.pair_of_mergeSort_eq byName_trans byName_total (nodup_gathered once)
    (gathered_perm same) equal (by simp [names]) (by simp [names]) first
  exact ((pair_gathered once isObject isFolder).mp kept).2 together

theorem pair_gathered_iff (once : pages.flatten.Nodup) (same : others.flatten = pages.flatten)
    (alike : SeparateAlike pages others) (isObject : object.isDirectory = false)
    (isFolder : folder.isDirectory = true) (names : object.name.text = folder.name.text) :
    [object, folder] <+ gathered others ↔ [object, folder] <+ gathered pages := by
  rw [pair_gathered (same ▸ once) isObject isFolder, pair_gathered once isObject isFolder, same]
  exact and_congr_right fun pair => not_congr (alike object folder pair isObject isFolder names).symm

theorem pair_gathered_of_separateAlike (once : pages.flatten.Nodup)
    (same : others.flatten = pages.flatten) (alike : SeparateAlike pages others) {a b : Status}
    (names : a.name.text = b.name.text) (pair : [a, b] <+ gathered others) :
    [a, b] <+ gathered pages := by
  by_cases kinds : a.isDirectory = b.isDirectory
  · rw [gathered, pair_foldersFirst_same _ kinds] at pair ⊢
    rwa [← same]
  -- What is known is where an object comes before a folder; the folder comes first where it does not.
  · cases kind : a.isDirectory with
    | false =>
      have otherKind : b.isDirectory = true := by simpa [kind] using kinds
      exact (pair_gathered_iff once same alike kind otherKind names).mp pair
    | true =>
      have otherKind : b.isDirectory = false := by simpa [kind] using kinds
      refine Sorting.pair_of_perm (nodup_gathered once) (gathered_perm same) pair fun swapped => ?_
      exact Sorting.not_pair_swap (nodup_gathered (same ▸ once)) pair
        ((pair_gathered_iff once same alike otherKind kind names.symm).mpr swapped)

theorem byName_gathered_eq (once : pages.flatten.Nodup) (same : others.flatten = pages.flatten)
    (alike : SeparateAlike pages others) :
    byName (gathered others) = byName (gathered pages) := by
  have every : (byName (gathered others)).filter (fun _ => true) =
      (byName (gathered pages)).filter (fun _ => true) := by
    refine Sorting.filter_mergeSort_eq byName_trans byName_total (nodup_gathered once)
      (gathered_perm same) fun a b _ _ less more => ?_
    exact pair_gathered_of_separateAlike once same alike
      (String.le_antisymm (of_decide_eq_true less) (of_decide_eq_true more))
  simpa using every

theorem byName_eq_iff_separateAlike (once : pages.flatten.Nodup)
    (same : others.flatten = pages.flatten) :
    byName (gathered others) = byName (gathered pages) ↔ SeparateAlike pages others := by
  refine ⟨fun equal object folder pair isObject isFolder names => ⟨?_, ?_⟩,
    byName_gathered_eq once same⟩
  · exact together_of_byName_eq once same equal pair isObject isFolder names
  · exact together_of_byName_eq (same ▸ once) same.symm equal.symm (same ▸ pair) isObject isFolder names

end Cuts

theorem sortByName_gathered (name folder : String) (cut : List (List Listed)) :
    sortByName (gathered (shownPages (.str name) folder cut)) =
      .ok (byName (gathered (shownPages (.str name) folder cut))) := by
  refine if_pos (List.all_eq_true.mpr fun status present => ?_)
  have shown := (flatMap_foldersFirst_perm _).mem_iff.mp present
  rw [flatten_shownPages] at shown
  obtain ⟨listed, -, here⟩ := List.mem_filterMap.mp shown
  obtain ⟨-, title, -, -, texts, -⟩ := shownOf_some here
  rw [texts]
  rfl

theorem list_eq {bucket : Bucket} {name path folder : String} {pages : List Page}
    {cut : List (List Listed)} (leads : listedPrefix path = .ok folder)
    (paged : bucket.pages folder = pages.map .ok) (holds : pages.Forall₂ Page.Holds cut) :
    (bucket.backend (.str name)).list path =
      match cut.flatten.findSome? (faultOf (.str name) folder) with
      | some cause => ⟨[], .error cause⟩
      | none => ⟨[], .ok (byName (gathered (shownPages (.str name) folder cut)))⟩ := by
  rw [backend_list, leads]
  simp only [bind, Except.bind, paged, pagesStatuses_eq holds, ← gathered_shownPages]
  cases cut.flatten.findSome? (faultOf (.str name) folder) with
  | some cause => rfl
  | none => simp only [sortByName_gathered]

theorem byName_gathered_perm (name : Value) (folder : String) (cut : List (List Listed)) :
    (byName (gathered (shownPages name folder cut))).Perm
      (cut.flatten.filterMap (shownOf name folder)) := by
  rw [← flatten_shownPages]
  exact (byName_perm _).trans (flatMap_foldersFirst_perm _)

/-- Where the pages are cut decides nothing but the order of an object and a folder of one name that
    comes after it. -/
theorem list_pages {bucket other : Bucket} {name path folder : String} {pages others : List Page}
    {cut further : List (List Listed)} (leads : listedPrefix path = .ok folder)
    (paged : bucket.pages folder = pages.map .ok) (holds : pages.Forall₂ Page.Holds cut)
    (otherPaged : other.pages folder = others.map .ok) (otherHolds : others.Forall₂ Page.Holds further)
    (same : further.flatten = cut.flatten) (once : (cut.flatten.map Listed.key).Nodup) :
    (∃ cause, cut.flatten.findSome? (faultOf (.str name) folder) = some cause ∧
      (bucket.backend (.str name)).list path = ⟨[], .error cause⟩ ∧
      (other.backend (.str name)).list path = ⟨[], .error cause⟩) ∨
    ∃ statuses others, (bucket.backend (.str name)).list path = ⟨[], .ok statuses⟩ ∧
      (other.backend (.str name)).list path = ⟨[], .ok others⟩ ∧
      statuses.Perm (cut.flatten.filterMap (shownOf (.str name) folder)) ∧
      SameButTies others statuses ∧
      (others = statuses ↔ SeparateAlike (shownPages (.str name) folder cut)
        (shownPages (.str name) folder further)) := by
  rw [list_eq leads paged holds, list_eq leads otherPaged otherHolds, same]
  have shown : (shownPages (.str name) folder further).flatten =
      (shownPages (.str name) folder cut).flatten := by
    rw [flatten_shownPages, flatten_shownPages, same]
  have apart : (shownPages (.str name) folder cut).flatten.Nodup := nodup_shownPages once
  cases cut.flatten.findSome? (faultOf (.str name) folder) with
  | some cause => exact .inl ⟨cause, rfl, rfl, rfl⟩
  | none => exact .inr ⟨_, _, rfl, rfl, byName_gathered_perm (.str name) folder cut,
      sameButTies_byName apart shown, byName_eq_iff_separateAlike apart shown⟩

def pagedAs (pages : List Page) : Bucket where
  connectFault := none
  headFault := none
  heads := []
  probes := []
  listings := [("d/", pages.map .ok)]

def pagedObject (key : String) : ListedObject := ⟨.str key, .int 1, .null, .ok (.str "")⟩

def onePage (object folder : String) : List Page := [⟨[.ok folder], [.ok (pagedObject object)]⟩]

def twoPages (object folder : String) : List Page :=
  [⟨[], [.ok (pagedObject object)]⟩, ⟨[.ok folder], []⟩]

theorem onePage_holds (object folder : String) : (onePage object folder).Forall₂ Page.Holds
    [[.object (pagedObject object), .folder folder]] :=
  .cons ⟨rfl, rfl⟩ .nil

theorem twoPages_holds (object folder : String) : (twoPages object folder).Forall₂ Page.Holds
    [[.object (pagedObject object)], [.folder folder]] :=
  .cons ⟨rfl, rfl⟩ (.cons ⟨rfl, rfl⟩ .nil)

theorem list_pages_object_and_folder : listedPrefix "d/" = .ok "d/" ∧
    ([Listed.object (pagedObject "d/a"), .folder "d/b/"].map Listed.key).Nodup ∧
    ∃ statuses,
      ((pagedAs (onePage "d/a" "d/b/")).backend (.str "b")).list "d/" = ⟨[], .ok statuses⟩ ∧
      ((pagedAs (twoPages "d/a" "d/b/")).backend (.str "b")).list "d/" = ⟨[], .ok statuses⟩ := by
  have leads : listedPrefix "d/" = .ok "d/" := by decide +kernel
  have once : ([Listed.object (pagedObject "d/a"), .folder "d/b/"].map Listed.key).Nodup := by
    decide +kernel
  let cut := [[Listed.object (pagedObject "d/a"), .folder "d/b/"]]
  let further := [[Listed.object (pagedObject "d/a")], [.folder "d/b/"]]
  have sound : cut.flatten.findSome? (faultOf (.str "b") "d/") = none := by decide +kernel
  have shownFirst : (shownPages (.str "b") "d/" cut).flatten =
      [⟨"s3a://b/d/a", .str "a", .int 1, 0, .str "", false, 0o666⟩,
        ⟨"s3a://b/d/b/", .str "b", .int 0, 0, .str "", true, 0o777⟩] := by decide +kernel
  have alike : SeparateAlike (shownPages (.str "b") "d/" cut) (shownPages (.str "b") "d/" further) := by
    intro object folder pair isObject isFolder names
    rw [shownFirst] at pair
    have first := pair.subset (List.mem_cons_self (a := object))
    have second := pair.subset (List.mem_cons_of_mem object (List.mem_singleton_self folder))
    simp only [List.mem_cons, List.not_mem_nil, or_false] at first second
    rcases first with rfl | rfl
    · rcases second with rfl | rfl
      · cases isFolder
      · exact absurd names (by decide)
    · cases isObject
  rcases @list_pages (pagedAs (onePage "d/a" "d/b/")) (pagedAs (twoPages "d/a" "d/b/")) "b" "d/" "d/"
      _ _ cut further leads rfl (onePage_holds "d/a" "d/b/") rfl (twoPages_holds "d/a" "d/b/") rfl once
    with ⟨cause, failed, -⟩ | ⟨statuses, others, shown, otherShown, -, -, equal⟩
  · rw [sound] at failed
    cases failed
  · exact ⟨leads, once, statuses, shown, by rw [otherShown, equal.mpr alike]⟩

/-- An object and a folder of one name are shown in the other order if a page ends between them. -/
theorem list_pages_tie :
    (onePage "d/a" "d/a/").Forall₂ Page.Holds
      [[.object (pagedObject "d/a"), .folder "d/a/"]] ∧
    (twoPages "d/a" "d/a/").Forall₂ Page.Holds
      [[.object (pagedObject "d/a")], [.folder "d/a/"]] ∧
    [[Listed.object (pagedObject "d/a")], [.folder "d/a/"]].flatten =
      [[Listed.object (pagedObject "d/a"), .folder "d/a/"]].flatten ∧
    ((pagedAs (onePage "d/a" "d/a/")).backend (.str "b")).list "d/" =
      ⟨[], .ok [⟨"s3a://b/d/a/", .str "a", .int 0, 0, .str "", true, 0o777⟩,
        ⟨"s3a://b/d/a", .str "a", .int 1, 0, .str "", false, 0o666⟩]⟩ ∧
    ((pagedAs (twoPages "d/a" "d/a/")).backend (.str "b")).list "d/" =
      ⟨[], .ok [⟨"s3a://b/d/a", .str "a", .int 1, 0, .str "", false, 0o666⟩,
        ⟨"s3a://b/d/a/", .str "a", .int 0, 0, .str "", true, 0o777⟩]⟩ := by
  have leads : listedPrefix "d/" = .ok "d/" := by decide +kernel
  refine ⟨onePage_holds _ _, twoPages_holds _ _, rfl, ?_, ?_⟩
  · have read : pagesStatuses (.str "b") "d/" ((pagedAs (onePage "d/a" "d/a/")).pages "d/") =
        .ok [⟨"s3a://b/d/a/", .str "a", .int 0, 0, .str "", true, 0o777⟩,
          ⟨"s3a://b/d/a", .str "a", .int 1, 0, .str "", false, 0o666⟩] := by decide +kernel
    rw [backend_list, leads]
    simp [read, sortByName, byName, List.mergeSort_of_pairwise, Value.text?, bind, Except.bind]
  · have read : pagesStatuses (.str "b") "d/" ((pagedAs (twoPages "d/a" "d/a/")).pages "d/") =
        .ok [⟨"s3a://b/d/a", .str "a", .int 1, 0, .str "", false, 0o666⟩,
          ⟨"s3a://b/d/a/", .str "a", .int 0, 0, .str "", true, 0o777⟩] := by decide +kernel
    rw [backend_list, leads]
    simp [read, sortByName, byName, List.mergeSort_of_pairwise, Value.text?, bind, Except.bind]

end Bucket
end HarvestPlan
