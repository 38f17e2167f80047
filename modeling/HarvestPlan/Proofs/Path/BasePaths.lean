import HarvestPlan.Proofs.Path.Routes
import HarvestPlan.Proofs.Path.Spelled

open HarvestPlan.Path (Route IsName separator)

namespace HarvestPlan

namespace Path

def names (path : String) : List (List Char) := (Text.cut separator path.toList).filter (· ≠ [])

@[simp] theorem names_route (route : Route) : names route.path = route.names := by
  rw [names, route.path_toList, route.filter_cut_text]

theorem IsName.isComponent {name : List Char} (isName : IsName name) : BasePath.IsComponent name :=
  ⟨isName.1, isName.2.1⟩

theorem Route.components (route : Route) : ∀ name ∈ route.names, BasePath.IsComponent name :=
  fun name present => (route.proper name present).isComponent

theorem Route.filled (route : Route) : 0 < route.slashes := by
  rcases route.few with one | two <;> omega

theorem Route.text_spelled (route : Route) :
    route.text = BasePath.spelled route.slashes route.names 0 := by
  simp [Route.text, BasePath.spelled, separator]

theorem names_join {names : List (List Char)} (proper : ∀ name ∈ names, IsName name) :
    Path.names (String.ofList (Text.join separator names)) = names := by
  have kept : names.filter (· ≠ []) = names :=
    List.filter_eq_self.mpr fun name present => by simpa using (proper name present).1
  by_cases none : names = []
  · simp [Path.names, none, Text.join, Text.cut]
  · rw [Path.names, String.toList_ofList,
      Text.cut_join none fun name present => (proper name present).2.1, kept]

end Path

namespace BasePath

open Text (join)

/-- How many names of a root no base path has: all of them if the root ends in a separator, and all but
    the last otherwise. -/
def droppedNames (root : String) : Nat :=
  if Path.endsInSeparator root then (Path.names root).length else (Path.names root).length - 1

/-- A root spelled with a separator at its end or without. -/
def Spells (root : String) (route : Route) : Prop :=
  root = route.path ∨ root = route.path ++ "/" ∧ route.names ≠ []

theorem Spells.absolute {root : String} {route : Route} (spells : Spells root route)
    (directory : String) : Path.absolute directory root = route.path := by
  rcases spells with rfl | ⟨rfl, more⟩
  · exact Path.absolute_route directory route
  · exact Path.absolute_padded directory route more

theorem Spells.names {root : String} {route : Route} (spells : Spells root route) :
    Path.names root = route.names := by
  rcases spells with rfl | ⟨rfl, more⟩
  · exact Path.names_route route
  · have shape : (route.path ++ "/").toList = route.text ++ separator :: [] := by
      simp [String.toList_append, separator]
    have same := route.filter_cut_text
    simp only [Path.names, shape, Text.cut_append, List.filter_append, same]
    simp [Text.cut]

theorem Spells.spelled {root : String} {route : Route} (spells : Spells root route) :
    ∃ trailing, root.toList = BasePath.spelled route.slashes route.names trailing := by
  rcases spells with rfl | ⟨rfl, -⟩
  · exact ⟨0, by rw [Route.path_toList, route.text_spelled]⟩
  · exact ⟨1, by simp [String.toList_append, Route.text, BasePath.spelled, separator]⟩

theorem Spells.leftOut {root : String} {route : Route} (spells : Spells root route) {trailing : Nat}
    (shape : root.toList = BasePath.spelled route.slashes route.names trailing) :
    droppedNames root = BasePath.leftOut route.names trailing := by
  have closes : (BasePath.spelled route.slashes route.names trailing).getLast? = some '/' ↔
      Closes route.names trailing := getLast_spelled route.components route.filled
  have ends : Path.endsInSeparator root = true ↔ Closes route.names trailing := by
    rw [← closes, ← shape]
    simp [Path.endsInSeparator, separator]
  simp only [droppedNames, BasePath.leftOut, spells.names, ends]

theorem compute_route {root : String} {start route : Route} (spells : Spells root start)
    (slashes : route.slashes = start.slashes) (isPrefix : start.names <+: route.names)
    (name : Json.Value) :
    compute route.path root name =
      .ok (.str (String.ofList (join separator (route.names.drop (droppedNames root))))) := by
  obtain ⟨trailing, shape⟩ := spells.spelled
  obtain ⟨rest, names⟩ := isPrefix
  have proper := route.components
  have has : HasPath route.path.toList route.text := by
    rw [Route.path_toList, route.text_spelled]
    exact .plain (unmarked_spelled proper route.slashes (Nat.zero_le 1))
  rw [route.text_spelled, slashes, ← names] at has
  rw [spells.leftOut shape, ← names]
  rw [← names] at proper
  exact compute_spelled proper start.filled shape has name

end BasePath

theorem Filesystem.normalizeRoot_spells {fs : Filesystem} {root : String} {route : Route}
    (absolute : Path.absolute fs.directory root = route.path) :
    BasePath.Spells (fs.normalizeRoot root) route := by
  unfold normalizeRoot
  simp only [absolute]
  split
  · rename_i padded
    refine .inr ⟨rfl, fun none => ?_⟩
    simp [(Path.endsInSeparator_route route).mpr none] at padded
  · exact .inl rfl

theorem Filesystem.absolute_normalizeRoot {fs : Filesystem} {root : String} {route : Route}
    (absolute : Path.absolute fs.directory root = route.path) :
    Path.absolute fs.directory (fs.normalizeRoot root) = route.path :=
  (normalizeRoot_spells absolute).absolute fs.directory

end HarvestPlan
