import HarvestPlan.Proofs.Path.Spelled

namespace HarvestPlan.BasePath

open Text (join trimEnd)

/-- The spellings of a path: by itself or after a scheme and an authority, with a separator at its end
    or without. -/
inductive IsSpelling (components : List (List Char)) : List Char → Prop
  | plain {ending : Nat} (few : ending ≤ 1) : IsSpelling components (spelled 1 components ending)
  | located {scheme authority : List Char} {ending : Nat} (schemeFree : '/' ∉ scheme)
      (authorityFree : '/' ∉ authority) (few : ending ≤ 1) :
      IsSpelling components (scheme ++ (mark ++ (authority ++ spelled 1 components ending)))

theorem unmarked_scheme {scheme : List Char} (free : '/' ∉ scheme) :
    ¬mark <:+: scheme ++ mark.dropLast := by
  intro occurs
  have fewer := occurs.sublist.count_le '/'
  rw [List.count_append, List.count_eq_zero_of_not_mem free] at fewer
  exact absurd fewer (by decide)

theorem IsSpelling.hasPath {components : List (List Char)} {text : List Char}
    (proper : ∀ c ∈ components, IsComponent c) (spelling : IsSpelling components text) :
    ∃ ending, HasPath text (spelled 1 components ending) := by
  cases spelling with
  | @plain ending few => exact ⟨ending, .plain (unmarked_spelled proper 1 few)⟩
  | @located _ _ ending schemeFree authorityFree few =>
    exact ⟨ending, .located (unmarked_scheme schemeFree) authorityFree⟩

/-- Below a root that ends in a separator the base path is what follows the root, and below any other
    one the last component of the root comes first. Names that the root shares with the authority or
    with what follows make no difference. -/
theorem compute_relative {above below : List (List Char)}
    (proper : ∀ c ∈ above ++ below, IsComponent c) {fullPath : String}
    (spelling : IsSpelling (above ++ below) fullPath.toList) (name : Json.Value) :
    (∀ trailing, Closes above trailing →
      compute fullPath (String.ofList (spelled 1 above trailing)) name =
        .ok (.str (String.ofList (join '/' below)))) ∧
    ∀ front last, above = front ++ [last] →
      compute fullPath (String.ofList (spelled 1 above 0)) name =
        .ok (.str (String.ofList (join '/' (last :: below)))) := by
  obtain ⟨ending, has⟩ := spelling.hasPath proper
  have computed := fun trailing => compute_spelled proper Nat.one_pos
    (String.toList_ofList (l := spelled 1 above trailing)) has name
  constructor
  · intro trailing closes
    rw [computed, leftOut, if_pos closes, List.drop_left]
  · rintro front last rfl
    have opens : ¬Closes (front ++ [last]) 0 := by simp [Closes]
    have kept : (front ++ [last] ++ below).drop ((front ++ [last]).length - 1) = last :: below := by
      simp
    rw [computed, leftOut, if_neg opens, kept]

/-- The bucket, the root and a folder below it have one name. -/
theorem compute_relative_logs :
    (∀ c ∈ ["logs".toList] ++ ["logs".toList, "app.log".toList], IsComponent c) ∧
    IsSpelling (["logs".toList] ++ ["logs".toList, "app.log".toList])
      "s3a://logs/logs/logs/app.log/".toList ∧
    compute "s3a://logs/logs/logs/app.log/" "/logs/" (.str "app.log") = .ok (.str "logs/app.log") ∧
    compute "s3a://logs/logs/logs/app.log/" "/logs" (.str "app.log") =
      .ok (.str "logs/logs/app.log") := by
  have proper : ∀ c ∈ ["logs".toList] ++ ["logs".toList, "app.log".toList], IsComponent c := by
    unfold IsComponent
    decide
  have schemeFree : '/' ∉ "s3a".toList := by decide
  have authorityFree : '/' ∉ "logs".toList := by decide
  have spelling : IsSpelling (["logs".toList] ++ ["logs".toList, "app.log".toList])
      "s3a://logs/logs/logs/app.log/".toList := .located schemeFree authorityFree Nat.le.refl
  obtain ⟨closed, opened⟩ := compute_relative proper spelling (.str "app.log")
  exact ⟨proper, spelling, closed 1 (.inl Nat.one_pos), opened [] "logs".toList rfl⟩

/-- A root without separators at its end leads to a path that is the root itself or goes on with a
    separator. -/
def LeadsTo (root path : List Char) : Prop := path = root ∨ root ++ ['/'] <+: path

theorem LeadsTo.occurs {root path : List Char} (leads : LeadsTo root path) : root <:+: path := by
  rcases leads with rfl | leads
  · exact List.infix_rfl
  · exact ((List.prefix_append root ['/']).trans leads).isInfix

theorem compute_cases {fullPath root : String} (filled : root ≠ "") (name : Json.Value) :
    (trimEnd isSlash root.toList <:+: withoutAuthority fullPath.toList ∧
      ∃ base, compute fullPath root name = .ok (.str base)) ∨
    (¬trimEnd isSlash root.toList <:+: withoutAuthority fullPath.toList ∧
      compute fullPath root name = .error (.refused (.outsideRoot fullPath root))) := by
  have nonempty : root.isEmpty = false := by
    rw [Bool.eq_false_iff, ne_eq, String.isEmpty_iff]
    exact filled
  rw [compute, if_neg (by simp [nonempty]), underRoot]
  cases found : Text.fromFirst? (trimEnd isSlash root.toList) (withoutAuthority fullPath.toList) with
  | none => exact .inr ⟨Text.fromFirst_eq_none_iff.mp found, rfl⟩
  | some path => exact .inl ⟨Text.fromFirst_isSome_iff.mp (by rw [found]; rfl), _, rfl⟩

/-- Which paths have a base path below a root: those that the root leads to, and no less all others in
    which it occurs, be it further down or as the beginning of a name. -/
structure IsJudged (fullPath root : String) (name : Json.Value) (path : List Char) : Prop where
  under : LeadsTo (trimEnd isSlash root.toList) path →
    ∃ base, compute fullPath root name = .ok (.str base)
  accepted : trimEnd isSlash root.toList <:+: path ↔
    ∃ base, compute fullPath root name = .ok (.str base)
  refused : ¬trimEnd isSlash root.toList <:+: path ↔
    compute fullPath root name = .error (.refused (.outsideRoot fullPath root))

theorem compute_isJudged (fullPath root : String) (absolute : root.toList.head? = some '/')
    (name : Json.Value) :
    ∃ path, HasPath fullPath.toList path ∧ IsJudged fullPath root name path := by
  have filled : root ≠ "" := by
    rintro rfl
    cases absolute
  refine ⟨withoutAuthority fullPath.toList, hasPath_withoutAuthority _, ?_⟩
  rcases compute_cases filled name with ⟨occurs, accepted⟩ | ⟨absent, refused⟩
  · refine ⟨fun _ => accepted, iff_of_true occurs accepted, iff_of_false (not_not.mpr occurs) ?_⟩
    obtain ⟨base, accepted⟩ := accepted
    simp [accepted]
  · refine ⟨fun leads => absurd leads.occurs absent, iff_of_false absent ?_, iff_of_true absent refused⟩
    simp [refused]

theorem compute_isJudged_further_down :
    "/data/".toList.head? = some '/' ∧ ∃ path, HasPath "s3a://b/srv/data/x".toList path ∧
      IsJudged "s3a://b/srv/data/x" "/data/" (.str "x") path :=
  ⟨rfl, compute_isJudged "s3a://b/srv/data/x" "/data/" rfl (.str "x")⟩

/-- A folder whose name only begins like that of the root is not refused. -/
theorem sibling_accepted :
    HasPath "/data2/x".toList "/data2/x".toList ∧
    ¬LeadsTo (trimEnd isSlash "/data".toList) "/data2/x".toList ∧
    compute "/data2/x" "/data" (.str "x") = .ok (.str "data2/x") := by
  refine ⟨.plain (Text.fromFirst_eq_none_iff.mp (by decide +kernel)), ?_, by decide +kernel⟩
  unfold LeadsTo
  decide +kernel

end HarvestPlan.BasePath
