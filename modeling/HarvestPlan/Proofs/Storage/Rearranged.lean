import HarvestPlan.Proofs.Storage.Losses

/-!
Filesystems that have the same nodes in another order. Every path leads to the same node; a directory is
read in another order, but its names are all different, so that sorting by name leaves one order only.
-/
open HarvestPlan.Path (separator)

namespace HarvestPlan

def Listing.GoesOn (listing : Listing) : Prop :=
  ∀ cause, listing.children = .error cause → ∃ error, cause = .system error

/-- Where a walk goes on, it cannot tell the two apart but for the order of what has failed. -/
def Listing.IsLike (other listing : Listing) : Prop :=
  listing.GoesOn → other.children = listing.children ∧ other.failed.Perm listing.failed

namespace Filesystem

theorem parent_some {path parent : String} (inside : parent? path = some parent) :
    ∃ before name, path.toList = before ++ separator :: name ∧ name ≠ [] ∧ separator ∉ name ∧
      parent.toList = if before = [] then [separator] else before := by
  unfold parent? at inside
  cases halves : Text.cutLast? '/' path.toList with
  | none =>
    rw [halves] at inside
    cases inside
  | some parts =>
    obtain ⟨before, name⟩ := parts
    rw [halves] at inside
    obtain ⟨shape, free⟩ := Text.cutLast_some halves
    cases name with
    | nil => cases inside
    | cons c cs =>
      refine ⟨before, c :: cs, shape, by simp, free, ?_⟩
      cases before with
      | nil =>
        cases inside
        rfl
      | cons d ds =>
        cases inside
        simp

/-- Two separators in front would be a second way to write the path of a child of the root. -/
theorem path_eq_of_name {path other parent : String}
    (single : ¬ [separator, separator] <+: path.toList)
    (otherSingle : ¬ [separator, separator] <+: other.toList) (inside : parent? path = some parent)
    (otherInside : parent? other = some parent) (same : Path.name path = Path.name other) :
    path = other := by
  obtain ⟨before, name, shape, filled, free, above⟩ := parent_some inside
  obtain ⟨otherBefore, otherName, otherShape, otherFilled, otherFree, otherAbove⟩ :=
    parent_some otherInside
  rw [Path.name_of_text shape filled free, Path.name_of_text otherShape otherFilled otherFree] at same
  obtain rfl : name = otherName := String.ofList_injective same
  rw [above] at otherAbove
  apply String.toList_injective
  rw [shape, otherShape]
  by_cases top : before = [] <;> by_cases otherTop : otherBefore = []
  · rw [top, otherTop]
  · rw [if_pos top, if_neg otherTop] at otherAbove
    rw [otherShape, ← otherAbove] at otherSingle
    exact absurd (List.prefix_append [separator, separator] name) otherSingle
  · rw [if_neg top, if_pos otherTop] at otherAbove
    rw [shape, otherAbove] at single
    exact absurd (List.prefix_append [separator, separator] name) single
  · rw [if_neg top, if_neg otherTop] at otherAbove
    rw [otherAbove]

theorem name_shownIn (path : String) {child : Node} {parent : String}
    (inside : parent? child.path = some parent) :
    Path.name (shownIn path child) = Path.name child.path := by
  obtain ⟨before, name, shape, filled, free, -⟩ := parent_some inside
  have ends : ∃ start, (shownIn path child).toList = start ++ separator :: name := by
    rw [shownIn, childPath, Path.name_of_text shape filled free]
    split
    · rename_i closed
      rw [Path.endsInSeparator, beq_iff_eq] at closed
      obtain ⟨start, whole⟩ := List.getLast?_eq_some_iff.mp closed
      exact ⟨start, by simp [whole]⟩
    · exact ⟨path.toList, by simp [separator]⟩
  obtain ⟨start, shown⟩ := ends
  rw [Path.name_of_text shape filled free, Path.name_of_text shown filled free]

/-- Paths are unique, and none begins with two separators; else two children of a directory could have
    one name. -/
structure IsDistinct (fs : Filesystem) : Prop where
  unique : (fs.nodes.map (·.path)).Nodup
  single : ∀ node ∈ fs.nodes, ¬ [separator, separator] <+: node.path.toList

variable {fs : Filesystem} {nodes : List Node}

theorem IsDistinct.names_apart (distinct : fs.IsDistinct) (path : String) {node : Node}
    {failed : List (String × String)} {statuses : List Status}
    (listing : fs.listChildren path (fs.childrenOf node) = ⟨failed, .ok statuses⟩) :
    ∀ status ∈ statuses, ∀ other ∈ statuses,
      status.name.text = other.name.text → status = other := by
  obtain ⟨shown, -⟩ := listChildren_ok listing
  have known : ∀ status ∈ statuses, ∃ child ∈ fs.nodes, parent? child.path = some node.path ∧
      fs.statusOf (shownIn path child) child = .ok status := by
    intro status present
    have held : Except.ok status ∈ statuses.map (Except.ok (ε := Failure)) :=
      List.mem_map_of_mem present
    rw [← shown] at held
    obtain ⟨child, below, same⟩ := List.mem_map.mp held
    obtain ⟨here, inside⟩ := List.mem_filter.mp (List.mem_filter.mp below).1
    exact ⟨child, here, by simpa using inside, same⟩
  intro status present other otherPresent alike
  obtain ⟨child, held, inside, same⟩ := known status present
  obtain ⟨otherChild, otherHeld, otherInside, otherSame⟩ := known other otherPresent
  rw [(statusOf_ok same).2.1, (statusOf_ok otherSame).2.1, name_shownIn path inside,
    name_shownIn path otherInside] at alike
  have paths := path_eq_of_name (distinct.single child held) (distinct.single otherChild otherHeld)
    inside otherInside alike
  obtain rfl := List.inj_on_of_nodup_map distinct.unique held otherHeld paths
  exact Except.ok.inj (same.symm.trans otherSame)

def missedAt (fs : Filesystem) (path : String) (child : Node) : List (String × String) :=
  (fs.listChildren path [child]).failed

def seenAt (fs : Filesystem) (path : String) (child : Node) : List Status :=
  match (fs.listChildren path [child]).children with
  | .ok statuses => statuses
  | .error _ => []

theorem listChildren_ok_iff {path : String} {children : List Node}
    {failed : List (String × String)} {statuses : List Status} :
    fs.listChildren path children = ⟨failed, .ok statuses⟩ ↔
      (∀ child ∈ children, (fs.listChildren path [child]).children = .ok (fs.seenAt path child)) ∧
        failed = children.flatMap (fs.missedAt path) ∧
        statuses = children.flatMap (fs.seenAt path) := by
  induction children generalizing failed statuses with
  | nil => simp [listChildren, eq_comm]
  | cons child rest ih =>
    rw [← List.singleton_append, listChildren_append, List.singleton_append, List.forall_mem_cons,
      List.flatMap_cons, List.flatMap_cons, missedAt, seenAt]
    rcases fs.listChildren path [child] with ⟨missed, cause | seen⟩
    · simp
    · rcases later : fs.listChildren path rest with ⟨failedRest, cause | statusesRest⟩
      · have stuck : ¬ ∀ child ∈ rest,
            (fs.listChildren path [child]).children = .ok (fs.seenAt path child) := by
          intro each
          have through := ih.mpr ⟨each, rfl, rfl⟩
          rw [later] at through
          cases through
        simp [stuck, Functor.map, Except.map]
      · obtain ⟨each, rfl, rfl⟩ := ih.mp later
        simp only [Functor.map, Except.map, Listing.mk.injEq, Except.ok.injEq, true_and]
        constructor
        · rintro ⟨rfl, rfl⟩
          exact ⟨each, rfl, rfl⟩
        · rintro ⟨-, rfl, rfl⟩
          exact ⟨rfl, rfl⟩

theorem listChildren_perm {path : String} {children others : List Node} (perm : others.Perm children)
    {failed : List (String × String)} {statuses : List Status}
    (listing : fs.listChildren path children = ⟨failed, .ok statuses⟩) :
    ∃ more further, fs.listChildren path others = ⟨more, .ok further⟩ ∧ more.Perm failed ∧
      further.Perm statuses := by
  obtain ⟨each, rfl, rfl⟩ := listChildren_ok_iff.mp listing
  have through := listChildren_ok_iff.mpr
    ⟨fun child present => each child (perm.mem_iff.mp present), rfl, rfl⟩
  exact ⟨_, _, through, perm.flatMap_right _, perm.flatMap_right _⟩

def rearranged (fs : Filesystem) (nodes : List Node) : Filesystem := { fs with nodes := nodes }

theorem listChildren_rearranged (path : String) (children : List Node) :
    (fs.rearranged nodes).listChildren path children = fs.listChildren path children := by
  induction children with
  | nil => rfl
  | cons child rest ih =>
    simp only [listChildren, ih]
    rfl

section Rearranged

variable (distinct : fs.IsDistinct) (same : nodes.Perm fs.nodes)

include distinct same

theorem IsDistinct.rearranged : (fs.rearranged nodes).IsDistinct :=
  ⟨(same.map _).nodup_iff.mpr distinct.unique,
    fun node present => distinct.single node (same.mem_iff.mp present)⟩

theorem find_rearranged (path : String) : (fs.rearranged nodes).find? path = fs.find? path := by
  cases found : fs.find? path with
  | none =>
    rw [find?, List.find?_eq_none] at found ⊢
    exact fun node present => found node (same.mem_iff.mp present)
  | some node =>
    have present := same.mem_iff.mpr (List.mem_of_find?_eq_some found)
    have here : node.path = path := by simpa using List.find?_some found
    rw [← here]
    exact find_of_mem (distinct.rearranged same).unique present

theorem beside_rearranged :
    IsBeside (fun node other => other = node) fs (fs.rearranged nodes) where
  directory := rfl
  found path := by
    rw [find_rearranged distinct same]
    cases fs.find? path with
    | none => exact .none
    | some node => exact .some rfl
  leads := by
    rintro node further rfl
    exact ⟨rfl, rfl, rfl⟩

theorem lookup_rearranged (path : String) : (fs.rearranged nodes).lookup path = fs.lookup path :=
  ((beside_rearranged distinct same).lookup path).eq

theorem stat_rearranged (path : String) : (fs.rearranged nodes).stat path = fs.stat path := by
  rw [stat, lookup_rearranged distinct same]
  rfl

theorem openLocal_rearranged (uri : Json.Value) :
    Connection.openLocal (fs.rearranged nodes) uri =
      (fun _ => (fs.rearranged nodes).backend) <$> Connection.openLocal fs uri :=
  (beside_rearranged distinct same).openLocal uri

theorem openDirectory_rearranged (path : String) :
    (fs.rearranged nodes).openDirectory path = fs.openDirectory path := by
  rw [openDirectory, lookup_rearranged distinct same]
  rfl

theorem list_rearranged (path : String) :
    ((fs.rearranged nodes).list path).IsLike (fs.list path) := by
  intro goesOn
  unfold list at goesOn ⊢
  rw [openDirectory_rearranged distinct same]
  cases opened : fs.openDirectory path with
  | error cause => exact ⟨rfl, .refl _⟩
  | ok node =>
    simp only [opened] at goesOn ⊢
    rcases listing : fs.listChildren path (fs.childrenOf node) with ⟨failed, cause | statuses⟩
    · obtain ⟨error, rfl⟩ := goesOn cause (by rw [listing]; rfl)
      exact absurd (congrArg Listing.children listing) listChildren_not_system
    · have children : ((fs.rearranged nodes).childrenOf node).Perm (fs.childrenOf node) :=
        same.filter _
      obtain ⟨more, further, through, missed, seen⟩ := listChildren_perm children listing
      rw [listChildren_rearranged, through]
      have sorted := byName_eq ((byName_perm further).trans seen) (byName_pairwise further)
        (distinct.names_apart path listing)
      exact ⟨congrArg Except.ok sorted.symm, missed⟩

end Rearranged

end Filesystem
end HarvestPlan
