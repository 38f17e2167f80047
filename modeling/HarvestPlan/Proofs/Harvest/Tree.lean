import HarvestPlan.Harvest

namespace HarvestPlan

/-- A node with what lies below it: a file, a directory that cannot be listed, or a directory with
    its children in the order of the listing. The children that a listing passes over are noted with
    the reason. -/
inductive Tree where
  | file (status : Status)
  | unlisted (status : Status) (failed : List (String × String)) (cause : Failure)
  | folder (status : Status) (failed : List (String × String)) (children : List Tree)

namespace Tree

def status : Tree → Status
  | file status | unlisted status _ _ | folder status _ _ => status

mutual

def size : Tree → Nat
  | file _ | unlisted .. => 1
  | folder _ _ children => sizeAll children + 1

def sizeAll : List Tree → Nat
  | [] => 0
  | tree :: rest => size tree + sizeAll rest

end

theorem exists_limit {tree : Tree} {limit : Nat} (enough : tree.size ≤ limit) :
    ∃ left, limit = left + 1 := by
  refine ⟨limit - 1, ?_⟩
  cases tree <;> simp only [size] at enough <;> omega

inductive IsOf (backend : Backend) : Tree → Prop
  | file {status : Status} (plain : status.isDirectory = false) : IsOf backend (.file status)
  | unlisted {status : Status} {failed : List (String × String)} {cause : Failure}
      (directory : status.isDirectory = true)
      (listing : backend.list status.path = ⟨failed, .error cause⟩) :
      IsOf backend (.unlisted status failed cause)
  | folder {status : Status} {failed : List (String × String)} {children : List Tree}
      (directory : status.isDirectory = true)
      (listing : backend.list status.path = ⟨failed, .ok (children.map Tree.status)⟩)
      (below : ∀ child ∈ children, IsOf backend child) :
      IsOf backend (.folder status failed children)

def IsListedIn (backend : Backend) (child status : Status) : Prop :=
  status.isDirectory = true ∧
    ∃ statuses, (backend.list status.path).children = .ok statuses ∧ child ∈ statuses

theorem exists_list {backend : Backend} {statuses : List Status}
    (each : ∀ status ∈ statuses, ∃ tree : Tree, tree.status = status ∧ tree.IsOf backend) :
    ∃ trees : List Tree, trees.map Tree.status = statuses ∧
      ∀ tree ∈ trees, tree.IsOf backend := by
  induction statuses with
  | nil => exact ⟨[], rfl, by simp⟩
  | cons status rest ih =>
    obtain ⟨tree, same, shown⟩ := each status (by simp)
    obtain ⟨trees, sameRest, shownRest⟩ :=
      ih fun other present => each other (List.mem_cons_of_mem _ present)
    refine ⟨tree :: trees, by simp [same, sameRest], ?_⟩
    intro other present
    rcases List.mem_cons.mp present with rfl | present
    · exact shown
    · exact shownRest other present

theorem exists_of_finite {backend : Backend} {status : Status}
    (finite : Acc (IsListedIn backend) status) :
    ∃ tree : Tree, tree.status = status ∧ tree.IsOf backend := by
  induction finite with
  | intro status _ ih =>
    cases directory : status.isDirectory with
    | false => exact ⟨.file status, rfl, .file directory⟩
    | true =>
      rcases listing : backend.list status.path with ⟨failed, cause | statuses⟩
      · exact ⟨.unlisted status failed cause, rfl, .unlisted directory listing⟩
      · have listed : ∀ child ∈ statuses, IsListedIn backend child status :=
          fun child present => ⟨directory, statuses, by rw [listing], present⟩
        obtain ⟨trees, rfl, shown⟩ := exists_list fun child present => ih child (listed child present)
        exact ⟨.folder status failed trees, rfl, .folder directory listing shown⟩

end Tree

/-- What a storage shows of a source root: the root cannot be put into normal form, or it has no
    status, or else it has a tree. -/
inductive RootView where
  | refused (cause : Failure)
  | unknown (cause : Failure)
  | seen (normalized : String) (tree : Tree)

namespace RootView

def size : RootView → Nat
  | refused _ | unknown _ => 0
  | seen _ tree => tree.size

inductive IsOf (backend : Backend) (root : String) : RootView → Prop
  | refused {cause : Failure} (normalizing : backend.normalizeRoot root = .error cause) :
      IsOf backend root (.refused cause)
  | unknown {normalized : String} {cause : Failure}
      (normalizing : backend.normalizeRoot root = .ok normalized)
      (looking : backend.stat normalized = .error cause) : IsOf backend root (.unknown cause)
  | seen {normalized : String} {tree : Tree}
      (normalizing : backend.normalizeRoot root = .ok normalized)
      (looking : backend.stat normalized = .ok tree.status) (shown : tree.IsOf backend) :
      IsOf backend root (.seen normalized tree)

/-- No chain of listings goes on for ever below the root. -/
def IsFinite (backend : Backend) (root : String) : Prop :=
  ∀ normalized status, backend.normalizeRoot root = .ok normalized →
    backend.stat normalized = .ok status → Acc (Tree.IsListedIn backend) status

theorem exists_of_finite {backend : Backend} {root : String} (finite : IsFinite backend root) :
    ∃ view : RootView, view.IsOf backend root := by
  cases normalizing : backend.normalizeRoot root with
  | error cause => exact ⟨.refused cause, .refused normalizing⟩
  | ok normalized =>
    cases looking : backend.stat normalized with
    | error cause => exact ⟨.unknown cause, .unknown normalizing looking⟩
    | ok status =>
      obtain ⟨tree, rfl, shown⟩ :=
        Tree.exists_of_finite (finite normalized status normalizing looking)
      exact ⟨.seen normalized tree, .seen normalizing looking shown⟩

end RootView
end HarvestPlan
