import HarvestPlan.Proofs.Path.Segments
import HarvestPlan.Storage.Filesystem

namespace HarvestPlan.Path

open Text (cut join)

def IsName (name : List Char) : Prop :=
  name ≠ [] ∧ separator ∉ name ∧ name ≠ ['.'] ∧ name ≠ ['.', '.']

@[ext] structure Route where
  slashes : Nat
  names : List (List Char)
  few : slashes = 1 ∨ slashes = 2
  proper : ∀ name ∈ names, IsName name

namespace Route

def text (route : Route) : List Char :=
  List.replicate route.slashes separator ++ join separator route.names

def path (route : Route) : String := String.ofList route.text

def child (route : Route) (name : List Char) (isName : IsName name) : Route where
  slashes := route.slashes
  names := route.names ++ [name]
  few := route.few
  proper := by
    intro other present
    rcases List.mem_append.mp present with present | present
    · exact route.proper other present
    · rw [List.mem_singleton.mp present]
      exact isName

@[simp] theorem child_slashes (route : Route) (name : List Char) (isName : IsName name) :
    (route.child name isName).slashes = route.slashes := rfl

@[simp] theorem child_names (route : Route) (name : List Char) (isName : IsName name) :
    (route.child name isName).names = route.names ++ [name] := rfl

@[simp] theorem path_toList (route : Route) : route.path.toList = route.text :=
  String.toList_ofList

theorem free (route : Route) {name : List Char} (present : name ∈ route.names) :
    separator ∉ name := (route.proper name present).2.1

theorem names_cases (route : Route) :
    route.names = [] ∨ ∃ c cs, join separator route.names = c :: cs ∧ c ≠ separator := by
  cases shape : route.names with
  | nil => exact .inl rfl
  | cons name rest =>
    have isName := route.proper name (by simp [shape])
    obtain ⟨c, cs, rfl⟩ := List.exists_cons_of_ne_nil isName.1
    have other : c ≠ separator := fun same => isName.2.1 (by simp [same])
    cases rest with
    | nil => exact .inr ⟨c, cs, rfl, other⟩
    | cons next others => exact .inr ⟨c, _, rfl, other⟩

theorem leadingSeparators_text (route : Route) (after : List Char)
    (padded : route.names = [] → after = []) :
    leadingSeparators (route.text ++ after) = route.slashes := by
  rcases route.names_cases with root | ⟨c, cs, shape, other⟩
  · have nothing := padded root
    subst nothing
    rcases route.few with one | two
    · simp [text, root, one, join, separator, leadingSeparators]
    · simp [text, root, two, join, separator, leadingSeparators]
  · have different : c ≠ '/' := other
    rcases route.few with one | two
    · simp only [text, shape, one]
      simp [separator, leadingSeparators, different]
    · simp only [text, shape, two]
      simp [separator, List.replicate_succ, leadingSeparators, different]

theorem filter_cut_text (route : Route) :
    (cut separator route.text).filter (· ≠ []) = route.names := by
  have kept : route.names.filter (· ≠ []) = route.names := by
    refine List.filter_eq_self.mpr ?_
    intro name present
    simpa using (route.proper name present).1
  have names : (cut separator (join separator route.names)).filter (· ≠ []) = route.names := by
    by_cases root : route.names = []
    · simp [root, join, cut]
    · rw [Text.cut_join root fun name present => route.free present, kept]
  rcases route.few with one | two
  · simpa [text, one, cut] using names
  · simpa [text, two, cut, List.replicate_succ] using names

end Route

theorem foldl_step_names {rooted : Bool} {names : List (List Char)}
    (proper : ∀ name ∈ names, IsName name) (done : List (List Char)) :
    names.foldl (step rooted) done = names.reverse ++ done := by
  induction names generalizing done with
  | nil => rfl
  | cons name rest ih =>
    obtain ⟨nonempty, -, notHere, notUp⟩ := proper name (by simp)
    have taken : step rooted done name = name :: done := by simp [step, nonempty, notHere, notUp]
    rw [List.foldl_cons, taken, ih fun other present => proper other (List.mem_cons_of_mem _ present)]
    simp

theorem foldl_step_filter (rooted : Bool) (segments done : List (List Char)) :
    segments.foldl (step rooted) done = (segments.filter (· ≠ [])).foldl (step rooted) done := by
  induction segments generalizing done with
  | nil => rfl
  | cons segment rest ih =>
    by_cases empty : segment = []
    · simp [empty, step, ih]
    · simp [empty, ih]

theorem isName_of_mem_step {done : List (List Char)} {segment : List Char}
    (proper : ∀ name ∈ done, IsName name) (free : separator ∉ segment) :
    ∀ name ∈ step true done segment, IsName name := by
  intro name present
  unfold step at present
  by_cases skipped : segment = [] ∨ segment = ['.']
  · simp only [skipped, if_true] at present
    exact proper name present
  · simp only [skipped, if_false] at present
    obtain ⟨nonempty, notHere⟩ := not_or.mp skipped
    by_cases up : segment = ['.', '.']
    · cases done with
      | nil => simp [up] at present
      | cons last rest =>
        have notUp := (proper last (by simp)).2.2.2
        simp only [up, if_true, notUp, if_false] at present
        exact proper name (List.mem_cons_of_mem _ present)
    · simp only [up, if_false] at present
      rcases List.mem_cons.mp present with rfl | present
      · exact ⟨nonempty, free, notHere, up⟩
      · exact proper name present

theorem isName_of_mem_components {path name : List Char} (rooted : leadingSeparators path ≠ 0)
    (present : name ∈ components path) : IsName name := by
  have each : ∀ (segments done : List (List Char)), (∀ segment ∈ segments, separator ∉ segment) →
      (∀ other ∈ done, IsName other) →
      ∀ other ∈ segments.foldl (step true) done, IsName other := by
    intro segments
    induction segments with
    | nil => exact fun done _ proper => proper
    | cons segment rest ih =>
      intro done free proper
      refine ih _ (fun other held => free other (List.mem_cons_of_mem _ held)) ?_
      exact isName_of_mem_step proper (free segment (by simp))
  simp only [components, rooted, ne_eq, not_false_eq_true, decide_true, List.mem_reverse] at present
  exact each _ [] (fun segment held => Text.notMem_of_mem_cut held) (by simp) name present

theorem leadingSeparators_of_head {path : List Char} (rooted : path.head? = some separator) :
    leadingSeparators path = 1 ∨ leadingSeparators path = 2 := by
  unfold leadingSeparators
  split
  · exact .inl rfl
  · exact .inr rfl
  · exact .inl rfl
  · rename_i other
    cases path with
    | nil => cases rooted
    | cons c cs =>
      cases rooted
      exact absurd rfl (other cs)

theorem normalize_isRoute {path : List Char} (rooted : path.head? = some separator) :
    ∃ route : Route, normalize path = route.text ∧ route.names = components path ∧
      route.slashes = leadingSeparators path := by
  have few := leadingSeparators_of_head rooted
  have some : leadingSeparators path ≠ 0 := by omega
  refine ⟨⟨leadingSeparators path, components path, few, fun name present =>
    isName_of_mem_components some present⟩, ?_, rfl, rfl⟩
  simp only [normalize, Route.text]
  rcases few with one | two
  · simp [one]
  · simp [two, List.replicate_succ]

theorem components_route (route : Route) (after : List Char)
    (padding : after = [] ∨ after = [separator] ∧ route.names ≠ []) :
    components (route.text ++ after) = route.names := by
  have same : (cut separator (route.text ++ after)).filter (· ≠ []) = route.names := by
    rcases padding with rfl | ⟨rfl, more⟩
    · rw [List.append_nil, route.filter_cut_text]
    · have padded : route.text ++ [separator] =
          List.replicate route.slashes separator ++ join separator (route.names ++ [[]]) := by
        rw [Text.join_append more, Route.text, List.append_assoc]
      have free : ∀ name ∈ route.names ++ [[]], separator ∉ name := by
        intro name present
        rcases List.mem_append.mp present with present | present
        · exact route.free present
        · simp [List.mem_singleton.mp present]
      have names : (route.names ++ [[]]).filter (· ≠ []) = route.names := by
        rw [List.filter_append, List.filter_eq_self.mpr fun name present => by
          simpa using (route.proper name present).1]
        simp
      have all := Text.cut_join (by simp) free
      rw [padded]
      rcases route.few with one | two
      · simpa [one, cut, all] using names
      · simpa [two, cut, List.replicate_succ, all] using names
  rw [components, foldl_step_filter, same, foldl_step_names route.proper]
  simp

theorem normalize_route (route : Route) (after : List Char)
    (padding : after = [] ∨ after = [separator] ∧ route.names ≠ []) :
    normalize (route.text ++ after) = route.text := by
  have padded : route.names = [] → after = [] := by
    intro root
    rcases padding with nothing | ⟨-, more⟩
    · exact nothing
    · exact absurd root more
  have same : List.replicate route.slashes separator ++ join separator route.names = route.text := rfl
  rw [normalize, route.leadingSeparators_text after padded, components_route route after padding, same]
  rcases route.few with one | two
  · simp [Route.text, one]
  · simp [Route.text, two, List.replicate_succ]

theorem head_text (route : Route) (after : List Char) :
    (route.text ++ after).head? = some separator := by
  rcases route.few with one | two
  · simp [Route.text, one]
  · simp [Route.text, two, List.replicate_succ]

theorem absolute_isRoute {directory : String}
    (rooted : directory.toList.head? = some separator) (path : String) :
    ∃ route : Route, absolute directory path = route.path := by
  have head : (fromDirectory directory.toList path.toList).head? = some separator := by
    unfold fromDirectory
    obtain ⟨cs, shape⟩ := List.head?_eq_some_iff.mp rooted
    split
    · assumption
    · split
      · simp [shape]
      · simp [shape]
  obtain ⟨route, same, -⟩ := normalize_isRoute head
  exact ⟨route, by rw [absolute, same, Route.path]⟩

theorem absolute_route (directory : String) (route : Route) :
    absolute directory route.path = route.path := by
  have head : route.text.head? = some separator := by simpa using head_text route []
  have normal : normalize route.text = route.text := by
    simpa using normalize_route route [] (.inl rfl)
  simp [absolute, fromDirectory, head, normal, Route.path]

theorem absolute_padded (directory : String) (route : Route) (more : route.names ≠ []) :
    absolute directory (route.path ++ "/") = route.path := by
  have head := head_text route [separator]
  have normal := normalize_route route [separator] (.inr ⟨rfl, more⟩)
  have shape : (route.path ++ "/").toList = route.text ++ [separator] := by
    simp [String.toList_append, separator]
  rw [absolute, shape, fromDirectory, if_pos head, normal, Route.path]

theorem endsInSeparator_route (route : Route) :
    endsInSeparator route.path = true ↔ route.names = [] := by
  constructor
  · intro ends
    rcases List.eq_nil_or_concat route.names with root | ⟨names, last, shape⟩
    · exact root
    · exfalso
      have isName := route.proper last (by simp [shape])
      obtain ⟨start, c, rfl⟩ := (List.eq_nil_or_concat last).resolve_left isName.1
      have shut : route.text.getLast? = some c := by
        by_cases alone : names = []
        · subst alone
          simp [Route.text, shape, join]
        · simp [Route.text, shape, Text.join_append alone, List.getLast?_append,
            List.getLast?_cons]
      have held : c = separator := by simpa [endsInSeparator, shut] using ends
      exact isName.2.1 (by simp [held])
  · intro root
    rcases route.few with one | two
    · simp [endsInSeparator, Route.text, root, one, join]
    · simp [endsInSeparator, Route.text, root, two, join]

theorem childPath_route (route : Route) {name : List Char} (isName : IsName name) :
    Filesystem.childPath route.path (String.ofList name) = (route.child name isName).path := by
  have shown : (route.child name isName).text = if route.names = [] then route.text ++ name
      else route.text ++ separator :: name := by
    by_cases root : route.names = []
    · simp [Route.text, root, join]
    · simp [Route.text, root, Text.join_append root]
  apply String.toList_injective
  by_cases root : route.names = []
  · have ends := (endsInSeparator_route route).mpr root
    simp [Filesystem.childPath, ends, shown, root]
  · have open_ : endsInSeparator route.path = false := by
      simpa using mt (endsInSeparator_route route).mp root
    simp [Filesystem.childPath, open_, shown, root, separator]

theorem text_child (route : Route) {name : List Char} (isName : IsName name) :
    ∃ before, (route.child name isName).text = before ++ separator :: name ∧
      (route.slashes = 1 → before = if route.names = [] then [] else route.text) := by
  by_cases root : route.names = []
  · rcases route.few with one | two
    · exact ⟨[], by simp [Route.text, root, one, join], by simp [root]⟩
    · refine ⟨[separator], by simp [Route.text, root, two, join, List.replicate_succ], ?_⟩
      intro one
      omega
  · exact ⟨route.text, by simp [Route.text, Text.join_append root], by simp [root]⟩

theorem name_of_text {path : String} {before name : List Char}
    (shape : path.toList = before ++ separator :: name) (filled : name ≠ [])
    (free : separator ∉ name) : Path.name path = String.ofList name := by
  have last : (cut separator (before ++ separator :: name)).getLast? = some name := by
    simp [Text.cut_append, Text.cut_of_notMem free]
  have whole : Text.trimEnd (· == separator) (before ++ separator :: name) =
      before ++ separator :: name := by
    obtain ⟨start, c, rfl⟩ := (List.eq_nil_or_concat name).resolve_left filled
    have other : c ≠ separator := fun same => free (by simp [same])
    simp [Text.trimEnd, other]
  obtain ⟨c, cs, rfl⟩ := List.exists_cons_of_ne_nil filled
  simp only [Path.name, shape, whole, last]

theorem name_route (route : Route) {name : List Char} (isName : IsName name) :
    Path.name (route.child name isName).path = String.ofList name := by
  obtain ⟨before, shape, -⟩ := text_child route isName
  exact name_of_text (by rw [Route.path_toList, shape]) isName.1 isName.2.1

theorem parent_route {route : Route} (single : route.slashes = 1) {name : List Char}
    (isName : IsName name) :
    Filesystem.parent? (route.child name isName).path = some route.path := by
  obtain ⟨before, shape, single_before⟩ := text_child route isName
  have parent := single_before single
  obtain ⟨c, cs, rfl⟩ := List.exists_cons_of_ne_nil isName.1
  have halves := Text.cutLast_append isName.2.1 before
  simp only [separator] at halves shape
  simp only [Filesystem.parent?, Route.path_toList, shape, halves]
  by_cases root : route.names = []
  · simp only [root, if_true] at parent
    subst parent
    simp [Route.path, Route.text, root, single, join, separator]
  · simp only [root, if_false] at parent
    subst parent
    obtain ⟨d, ds, text⟩ : ∃ d ds, route.text = d :: ds := by
      exact ⟨separator, join separator route.names, by simp [Route.text, single]⟩
    simp only [text]
    simp [Route.path, text]

theorem parent_root {route : Route} (single : route.slashes = 1) (root : route.names = []) :
    Filesystem.parent? route.path = none := by
  have text : route.text = ['/'] := by simp [Route.text, single, root, join, separator]
  simp [Filesystem.parent?, text, Text.cutLast?, Text.cutFirst?]

theorem parts_route (fs : Filesystem) (route : Route) :
    fs.parts route.path = route.names.map String.ofList := by
  have head : route.text.head? = some separator := by simpa using head_text route []
  have names := route.filter_cut_text
  simp only [separator] at names
  simp only [Filesystem.parts, Route.path_toList, fromDirectory, head, if_true, names]

theorem names_of_path_eq {route other : Route} (same : route.path = other.path) :
    route.names = other.names := by
  have text : route.text = other.text := by
    rw [← route.path_toList, ← other.path_toList, same]
  rw [← route.filter_cut_text, ← other.filter_cut_text, text]

theorem Route.path_injective {route other : Route} (same : route.path = other.path) :
    route = other := by
  have names := names_of_path_eq same
  have text : route.text = other.text := by
    rw [← route.path_toList, ← other.path_toList, same]
  rw [Route.text, Route.text, names, List.append_left_inj] at text
  ext1
  · simpa using congrArg List.length text
  · exact names

theorem Route.child_injective {route other : Route} {name otherName : List Char}
    {isName : IsName name} {isOther : IsName otherName}
    (same : route.child name isName = other.child otherName isOther) :
    route = other ∧ name = otherName := by
  have slashes := congrArg Route.slashes same
  have names := congrArg Route.names same
  simp only [child_slashes, child_names] at slashes names
  obtain ⟨before, last⟩ := List.append_inj' names rfl
  exact ⟨Route.ext slashes before, by simpa using last⟩

end HarvestPlan.Path
