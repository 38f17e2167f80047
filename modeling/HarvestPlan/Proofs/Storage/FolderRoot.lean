import HarvestPlan.Proofs.Path.BasePaths
import HarvestPlan.Proofs.Storage.Honest

namespace HarvestPlan.Bucket

open Json (Value)

variable {key folder root top : String}

theorem cut_slash (before after : List Char) :
    (Text.cut '/' (before ++ '/' :: after)).dropLast =
      Text.cut '/' before ++ (Text.cut '/' after).dropLast := by
  rw [Text.cut_append, List.dropLast_append_of_ne_nil (Text.cut_ne_nil _ _)]

theorem IsKey.leading (proper : IsKey key) (ends : endsInSlash folder = true)
    (leads : folder.toList <+: key.toList) : IsKey folder := by
  obtain ⟨front, shape⟩ := endsInSlash_iff.mp ends
  obtain ⟨rest, whole⟩ := leads
  rw [IsKey, ← whole, shape, List.append_assoc, List.singleton_append, cut_slash] at proper
  rw [IsKey, shape, cut_slash]
  intro empty
  refine proper (List.mem_append_left _ ?_)
  simpa [Text.cut] using empty

theorem IsKept.leading (kept : IsKept key) (leads : folder.toList <+: key.toList) :
    IsKept folder :=
  fun c present => kept c (leads.subset present)

theorem endsInSlash_padded (key : String) : endsInSlash (key ++ "/") = true :=
  endsInSlash_iff.mpr ⟨key.toList, by simp [String.toList_append]⟩

theorem IsKey.front (proper : IsKey (top ++ "/")) :
    IsKey top ∧ top ≠ "" ∧ endsInSlash top = false := by
  have pieces : [] ∉ Text.cut '/' top.toList := by
    intro empty
    refine proper ?_
    have shape : (top ++ "/").toList = top.toList ++ '/' :: [] := by
      simp [String.toList_append]
    rw [shape, cut_slash]
    exact List.mem_append_left _ empty
  refine ⟨fun empty => pieces ((List.dropLast_sublist _).subset empty), ?_, ?_⟩
  · rintro rfl
    exact pieces (by simp [Text.cut])
  · refine Bool.eq_false_iff.mpr fun ends => pieces ?_
    obtain ⟨start, shape⟩ := endsInSlash_iff.mp ends
    rw [shape, Text.cut_append]
    simp [Text.cut]

theorem IsKey.plain (proper : IsKey key) :
    Text.fromFirst? [':', '/', '/'] key.toList = none := by
  refine Text.fromFirst_eq_none_iff.mpr fun ⟨before, after, shape⟩ => ?_
  have split : key.toList = (before ++ [':']) ++ '/' :: ([] ++ '/' :: after) := by simp [← shape]
  refine absurd ?_ proper
  rw [split, cut_slash, cut_slash]
  simp [Text.cut]

theorem IsKey.keyOf (proper : IsKey key) : keyOf key = .ok key ∧ keyOf ("/" ++ key) = .ok key := by
  have plain : Text.fromFirst? [':', '/', '/'] ("/" ++ key).toList = none := by
    simpa [Text.fromFirst?, List.isPrefixOf, String.toList_append] using proper.plain
  have dropped := dropWhile_isSlash proper.head
  have padded : ("/" ++ key).toList.dropWhile isSlash = key.toList := by
    simpa [String.toList_append, isSlash] using dropped
  constructor
  · simp [Bucket.keyOf, proper.plain, dropped, bind, Except.bind, pure, Except.pure]
  · unfold Bucket.keyOf
    rw [plain]
    simp only [bind, Except.bind, pure, Except.pure, padded, String.ofList_toList]

theorem withoutTrailing_front (open_ : endsInSlash top = false) :
    withoutTrailing top = top ∧ withoutTrailing (top ++ "/") = top := by
  have kept : Text.trimEnd isSlash top.toList = top.toList := by
    refine Text.trimEnd_eq_self fun c last => ?_
    have other : c ≠ '/' := by
      rintro rfl
      simp [endsInSlash, last] at open_
    simpa [isSlash] using other
  constructor
  · rw [withoutTrailing, kept, String.ofList_toList]
  · have shape : (top ++ "/").toList = top.toList ++ ['/'] := by simp [String.toList_append]
    rw [withoutTrailing, shape, Text.trimEnd_concat_of_dropped (by decide), kept,
      String.ofList_toList]

def Spells (objects : List Stored) (top root : String) : Prop :=
  root = top ++ "/" ∨ root = top ∧ ∀ object ∈ objects, object.key ≠ top

variable {objects : List Stored} {bucket : Bucket}

theorem Spells.isKey (spells : Spells objects top root) (proper : IsKey (top ++ "/")) :
    IsKey root := by
  rcases spells with rfl | ⟨rfl, -⟩
  · exact proper
  · exact proper.front.1

theorem Spells.normalizeRoot (spells : Spells objects top root) (proper : IsKey (top ++ "/"))
    (name : Value) : (bucket.backend name).normalizeRoot root = .ok ("/" ++ root) := by
  simp [backend, (spells.isKey proper).keyOf.1, bind, Except.bind, pure, Except.pure]

theorem IsHonest.statFolder (honest : bucket.IsHonest objects) (name : Value)
    (trimmed : withoutTrailing key = top)
    (held : ∃ object ∈ objects, (top ++ "/").toList <+: object.key.toList) :
    bucket.statFolder name key = .ok (folderStatus name (top ++ "/")) := by
  obtain ⟨some_, probed, exactly⟩ := honest.probed (top ++ "/") (endsInSlash_padded top)
  rw [exactly.mpr held] at probed
  simp [Bucket.statFolder, trimmed, probed]

theorem IsHonest.stat (honest : bucket.IsHonest objects) (spells : Spells objects top root)
    (proper : IsKey (top ++ "/"))
    (held : ∃ object ∈ objects, (top ++ "/").toList <+: object.key.toList) (name : Value) :
    (bucket.backend name).stat ("/" ++ root) = .ok (folderStatus name (top ++ "/")) := by
  obtain ⟨-, some_, open_⟩ := proper.front
  obtain ⟨trimmed, trimmedFolder⟩ := withoutTrailing_front open_
  change keyOf ("/" ++ root) >>= bucket.statKey name = _
  rw [(spells.isKey proper).keyOf.2]
  change bucket.statKey name root = _
  rcases spells with rfl | ⟨rfl, noObject⟩
  · have filled : (top ++ "/").isEmpty = false :=
      isEmpty_of_slash (by simp [String.toList_append])
    simp [statKey, filled, endsInSlash_padded, honest.statFolder name trimmedFolder held]
  · have filled : root.isEmpty = false := Bool.eq_false_iff.mpr fun empty =>
      some_ (String.isEmpty_iff.mp empty)
    obtain ⟨fault, refused, missing⟩ := honest.missing root noObject
    simp [statKey, filled, open_, refused, missing, honest.statFolder name trimmed held, bind,
      Except.bind]

theorem withoutAuthority_pathOf {name : String} (free : '/' ∉ name.toList) (key : String) :
    BasePath.withoutAuthority (pathOf (.str name) key).toList = '/' :: key.toList := by
  have shape : (pathOf (.str name) key).toList =
      ['s', '3', 'a'] ++ (BasePath.mark ++ (name.toList ++ '/' :: key.toList)) := by
    simp [pathOf, Value.text, String.toList_append, BasePath.mark]
  rw [shape]
  exact (BasePath.HasPath.located (by decide) free).withoutAuthority

theorem trim_opens (cs : List Char) :
    (Text.trim BasePath.isSlash cs).head? ≠ some '/' := by
  intro leads
  have opens := (Text.trim_isTrimmed BasePath.isSlash cs).opens '/' leads
  simp [BasePath.isSlash] at opens

theorem Spells.compute (spells : Spells objects top root) (proper : IsKey (top ++ "/"))
    {name : String} (free : '/' ∉ name.toList)
    (below : (top ++ "/").toList <+: key.toList) (last : Value) :
    ∃ base : String, BasePath.compute (pathOf (.str name) key) ("/" ++ root) last =
      .ok (.str base) ∧ base.toList.head? ≠ some '/' := by
  obtain ⟨-, some_, open_⟩ := proper.front
  have kept : Text.trimEnd BasePath.isSlash ('/' :: top.toList) = '/' :: top.toList := by
    refine Text.trimEnd_eq_self fun c ends => ?_
    have more : top.toList ≠ [] := fun none => some_ (String.toList_eq_nil_iff.mp none)
    rw [List.getLast?_cons, List.getLast?_eq_some_getLast more, Option.getD_some,
      Option.some.injEq] at ends
    have other : c ≠ '/' := by
      rintro rfl
      simp [endsInSlash, List.getLast?_eq_some_getLast more, ends] at open_
    simpa [BasePath.isSlash] using other
  have trimmed : Text.trimEnd BasePath.isSlash ("/" ++ root).toList = '/' :: top.toList := by
    rcases spells with rfl | ⟨rfl, -⟩
    · have shape : ("/" ++ (top ++ "/")).toList = ('/' :: top.toList) ++ ['/'] := by
        simp [String.toList_append]
      rw [shape, Text.trimEnd_concat_of_dropped (by decide), kept]
    · simpa [String.toList_append] using kept
  have leads : ('/' :: top.toList) <+: ('/' :: key.toList) := by
    refine (List.prefix_cons_inj _).mpr (List.IsPrefix.trans ?_ below)
    exact ⟨['/'], by simp [String.toList_append]⟩
  have found := Text.fromFirst_of_prefix leads (List.cons_ne_nil _ _)
  have filled : ("/" ++ root).isEmpty = false :=
    isEmpty_of_slash (by simp [String.toList_append])
  refine ⟨String.ofList (BasePath.below ("/" ++ root).toList ('/' :: top.toList)
    ('/' :: key.toList)), ?_, ?_⟩
  · rw [BasePath.compute, if_neg (by simp [filled]), BasePath.underRoot]
    simp only [withoutAuthority_pathOf free, trimmed, found]
    rfl
  · rw [String.toList_ofList]
    exact trim_opens _

end HarvestPlan.Bucket
