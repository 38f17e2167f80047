import HarvestPlan.Proofs.Outcome
import HarvestPlan.Proofs.Path.Routes

open HarvestPlan.Path (Route IsName separator)

namespace HarvestPlan

namespace Path

def IsNormal (path : String) : Prop :=
  path.toList = separator :: Text.join separator (components path.toList)

instance (path : String) : Decidable (IsNormal path) := inferInstanceAs (Decidable (_ = _))

theorem IsNormal.route {path : String} (normal : IsNormal path) :
    ∃ route : Route, route.slashes = 1 ∧ route.path = path := by
  have rooted : path.toList.head? = some separator := by
    rw [normal]
    rfl
  obtain ⟨route, -, names, -⟩ := normalize_isRoute rooted
  refine ⟨⟨1, route.names, .inl rfl, route.proper⟩, rfl, ?_⟩
  apply String.toList_injective
  rw [Route.path_toList, normal, ← names]
  rfl

end Path

namespace Filesystem

/-- Paths are unique and in normal form, only links lead elsewhere, and the working directory is
    absolute. -/
structure IsProper (fs : Filesystem) : Prop where
  unique : (fs.nodes.map (·.path)).Nodup
  normal : ∀ node ∈ fs.nodes, Path.IsNormal node.path
  links : ∀ node ∈ fs.nodes, node.target ≠ none →
    ∃ bits, node.bits = .ok bits ∧ Node.typeBits bits = 0o12
  rooted : fs.directory.toList.head? = some separator

/-- Paths are unique and in normal form, and the working directory is absolute; any node may lead
    elsewhere. -/
structure IsNamed (fs : Filesystem) : Prop where
  unique : (fs.nodes.map (·.path)).Nodup
  normal : ∀ node ∈ fs.nodes, Path.IsNormal node.path
  rooted : fs.directory.toList.head? = some separator

theorem IsProper.named {fs : Filesystem} (proper : fs.IsProper) : fs.IsNamed :=
  ⟨proper.unique, proper.normal, proper.rooted⟩

theorem IsProper.target_of_directory {fs : Filesystem} (proper : fs.IsProper) {node : Node}
    (present : node ∈ fs.nodes) (directory : node.isDirectory = .ok true) : node.target = none := by
  by_cases plain : node.target = none
  · exact plain
  · obtain ⟨bits, known, link⟩ := proper.links node present plain
    obtain ⟨other, same, folder⟩ := Outcome.map_ok directory
    rw [known] at same
    cases same
    simp [link] at folder

theorem find_of_mem {nodes : List Node} (unique : (nodes.map (·.path)).Nodup) {node : Node}
    (present : node ∈ nodes) : nodes.find? (fun other => other.path == node.path) = some node := by
  induction nodes with
  | nil => cases present
  | cons first rest ih =>
    obtain ⟨absent, uniqueRest⟩ := List.nodup_cons.mp unique
    rcases List.mem_cons.mp present with rfl | present
    · simp
    · have other : first.path ≠ node.path := by
        intro same
        exact absent (List.mem_map.mpr ⟨node, present, same.symm⟩)
      simp [other, ih uniqueRest present]

theorem walkParts_mem {fs : Filesystem} {follow : String → Except LookupFault Node}
    (followed : ∀ target node, follow target = .ok node → node ∈ fs.nodes) {path : String}
    {node : Node} (found : fs.walkParts follow path = .ok node) : node ∈ fs.nodes := by
  have entering : ∀ before name after, fs.enter follow before name = .ok after →
      after ∈ fs.nodes := by
    intro before name after entered
    unfold enter at entered
    obtain ⟨directory, -, entered⟩ := Outcome.bind_ok entered
    cases directory with
    | false => cases entered
    | true =>
      simp only [Bool.not_true, Bool.false_eq_true, if_false] at entered
      split at entered
      · cases entered
      · rename_i child below
        split at entered
        · rw [← Except.ok.inj entered]
          exact List.mem_of_find?_eq_some below
        · exact followed _ _ entered
  have folding : ∀ (names : List String) before after, before ∈ fs.nodes →
      names.foldlM (fs.enter follow) before = .ok after → after ∈ fs.nodes := by
    intro names
    induction names with
    | nil =>
      intro before after present walked
      rw [← Except.ok.inj walked]
      exact present
    | cons name rest ih =>
      intro before after present walked
      obtain ⟨next, entered, walked⟩ := Outcome.bind_ok walked
      exact ih next after (entering before name next entered) walked
  unfold walkParts at found
  split at found
  · cases found
  · rename_i top root
    exact folding _ _ _ (List.mem_of_find?_eq_some root) found

theorem lookup_mem {fs : Filesystem} {path : String} {node : Node}
    (found : fs.lookup path = .ok node) : node ∈ fs.nodes := by
  have within : ∀ nesting path node, fs.lookupWithin nesting path = .ok node →
      node ∈ fs.nodes := by
    intro nesting
    induction nesting with
    | zero =>
      intro path node found
      refine walkParts_mem ?_ found
      intro target other followed
      cases followed
    | succ nesting ih => exact fun path node found => walkParts_mem ih found
  exact within _ path node (Outcome.mapError_ok found)

/-- What is known of a node that the route leads to, whose own path is the other route. A link is not
    what its route leads to. -/
structure Stands (fs : Filesystem) (route own : Route) (node : Node) : Prop where
  present : node ∈ fs.nodes
  single : own.slashes = 1
  path : node.path = own.path
  found : node.target = none → fs.lookup route.path = .ok node

theorem lookup_child {fs : Filesystem} {route : Route} {name : List Char} (isName : IsName name)
    {node child : Node} (found : fs.lookup route.path = .ok node)
    (directory : node.isDirectory = .ok true)
    (below : fs.find? (childPath node.path (String.ofList name)) = some child)
    (plain : child.target = none) : fs.lookup (route.child name isName).path = .ok child := by
  have walked : fs.walkParts (fs.lookupWithin 7) route.path = .ok node :=
    Outcome.mapError_ok found
  have entered : fs.enter (fs.lookupWithin 7) node (String.ofList name) = .ok child := by
    simp [enter, directory, Outcome.ok_mapError, below, plain, bind, Except.bind, pure, Except.pure]
  have further : fs.walkParts (fs.lookupWithin 7) (route.child name isName).path = .ok child := by
    unfold walkParts at walked ⊢
    cases top : fs.find? "/" with
    | none => simp [top] at walked
    | some root =>
      simp only [top, Path.parts_route] at walked ⊢
      simp [walked, entered, bind, Except.bind, pure, Except.pure]
  change (fs.walkParts (fs.lookupWithin 7) (route.child name isName).path).mapError _ = _
  rw [further]
  rfl

def shownIn (path : String) (child : Node) : String := childPath path (Path.name child.path)

/-- A child adds its last name to the path of the directory, whatever that is shown as. -/
theorem IsNamed.child {fs : Filesystem} (named : fs.IsNamed) {node child : Node}
    (below : child ∈ fs.childrenOf node) :
    ∃ own : Route, ∃ name, ∃ isName : IsName name, own.slashes = 1 ∧ own.path = node.path ∧
      child.path = (own.child name isName).path ∧
      ∀ route : Route, shownIn route.path child = (route.child name isName).path := by
  simp only [childrenOf, List.mem_filter, beq_iff_eq] at below
  obtain ⟨present, inside⟩ := below
  obtain ⟨way, single, path⟩ := (named.normal child present).route
  rw [← path] at inside
  rcases List.eq_nil_or_concat way.names with root | ⟨names, name, shape⟩
  · rw [Path.parent_root single root] at inside
    cases inside
  · have isName : IsName name := way.proper name (by simp [shape])
    have sub : ∀ other ∈ names, IsName other := fun other held => way.proper other (by simp [shape, held])
    let own : Route := ⟨1, names, .inl rfl, sub⟩
    have same : way = own.child name isName := by
      ext1
      · exact single
      · simpa [own] using shape
    rw [same, Path.parent_route rfl isName] at inside
    have childPath : child.path = (own.child name isName).path := by rw [← path, same]
    refine ⟨own, name, isName, rfl, Option.some.inj inside, childPath, fun route => ?_⟩
    rw [shownIn, childPath, Path.name_route, Path.childPath_route]

theorem Stands.child {fs : Filesystem} (proper : fs.IsProper) {route own : Route} {node : Node}
    (stands : fs.Stands route own node) (directory : node.isDirectory = .ok true) {child : Node}
    (below : child ∈ fs.childrenOf node) :
    ∃ name, ∃ isName : IsName name,
      shownIn route.path child = (route.child name isName).path ∧
      fs.Stands (route.child name isName) (own.child name isName) child := by
  have present : child ∈ fs.nodes := (List.mem_filter.mp below).1
  obtain ⟨above, name, isName, single, abovePath, childPath, shown⟩ := proper.named.child below
  have common : above = own := by
    ext1
    · exact single.trans stands.single.symm
    · exact Path.names_of_path_eq (abovePath.trans stands.path)
  rw [common] at childPath
  refine ⟨name, isName, shown route, present, stands.single, childPath, ?_⟩
  intro plain
  have found := stands.found (proper.target_of_directory stands.present directory)
  refine lookup_child isName found directory ?_ plain
  rw [stands.path, Path.childPath_route own isName, ← childPath]
  exact find_of_mem proper.unique present

end Filesystem
end HarvestPlan
