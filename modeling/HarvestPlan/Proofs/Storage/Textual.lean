import HarvestPlan.Storage.Opened
import HarvestPlan.Proofs.Entry.Plain
import HarvestPlan.Proofs.Lists
import HarvestPlan.Proofs.Storage.Listing

namespace HarvestPlan

open Json (Value)

structure Status.IsTextual (status : Status) : Prop where
  name : ∃ s, status.name = .str s
  size : ∃ n, status.size = .int n
  owner : status.owner.IsOptionalText

structure Backend.IsTextual (backend : Backend) : Prop where
  stat : ∀ {path status}, backend.stat path = .ok status → status.IsTextual
  list : ∀ {path children}, (backend.list path).children = .ok children →
    ∀ child ∈ children, child.IsTextual

namespace Filesystem

structure IsTextual (fs : Filesystem) : Prop where
  sizes : ∀ node ∈ fs.nodes, ∃ n, node.size = .int n
  users : ∀ user ∈ fs.users, ∃ s, user.2 = .str s

variable {fs : Filesystem}

theorem IsTextual.owner (textual : fs.IsTextual) (uid : Value) :
    (fs.owner uid).IsOptionalText := by
  unfold Filesystem.owner
  split
  · exact .inr ⟨"", rfl⟩
  · cases known : fs.users.lookup uid.text with
    | none => exact .inr ⟨uid.text, rfl⟩
    | some name =>
      obtain ⟨before, after, same, -⟩ := List.lookup_eq_some_iff.mp known
      exact .inr (textual.users (uid.text, name) (by simp [same]))

theorem IsTextual.statusOf (textual : fs.IsTextual) {path : String} {node : Node}
    (present : node ∈ fs.nodes) {status : Status} (known : fs.statusOf path node = .ok status) :
    status.IsTextual := by
  unfold Filesystem.statusOf at known
  obtain ⟨bits, -, known⟩ := Outcome.bind_ok known
  obtain ⟨isDirectory, -, known⟩ := Outcome.bind_ok known
  obtain ⟨modified, -, known⟩ := Outcome.bind_ok known
  cases known
  refine ⟨⟨_, rfl⟩, ?_, textual.owner node.uid⟩
  cases isDirectory with
  | true => exact ⟨0, rfl⟩
  | false => exact textual.sizes node present

theorem IsTextual.stat (textual : fs.IsTextual) {path : String} {status : Status}
    (known : fs.stat path = .ok status) : status.IsTextual := by
  unfold Filesystem.stat at known
  obtain ⟨node, found, known⟩ := Outcome.bind_ok known
  obtain ⟨-, -, known⟩ := Outcome.bind_ok known
  exact textual.statusOf (lookup_mem found) known

theorem IsTextual.list (textual : fs.IsTextual) {path : String} {statuses : List Status}
    (listed : (fs.list path).children = .ok statuses) : ∀ status ∈ statuses, status.IsTextual := by
  unfold Filesystem.list at listed
  split at listed
  · cases listed
  · rename_i node _
    obtain ⟨shown, shown_eq, rfl⟩ := Outcome.map_ok listed
    have shape : fs.listChildren path (fs.childrenOf node) =
        ⟨(fs.listChildren path (fs.childrenOf node)).failed, .ok shown⟩ := by
      rw [← shown_eq]
    have known := (listChildren_ok shape).1
    intro status present
    have kept : (.ok status : Except Failure Status) ∈ shown.map .ok :=
      List.mem_map_of_mem ((List.mergeSort_perm shown _).mem_iff.mp present)
    rw [← known] at kept
    obtain ⟨child, child_mem, child_known⟩ := List.mem_map.mp kept
    have inside := (List.mem_filter.mp (List.mem_filter.mp child_mem).1).1
    exact textual.statusOf inside child_known

theorem IsTextual.backend (textual : fs.IsTextual) : fs.backend.IsTextual :=
  ⟨textual.stat, textual.list⟩

end Filesystem

/-- What cannot be understood is no harm. -/
structure ListedObject.IsTextual (object : ListedObject) : Prop where
  size : ∃ n, object.size = .int n
  owner : ∀ name, object.owner = .ok name → name.IsOptionalText

namespace Bucket

structure IsTextual (bucket : Bucket) : Prop where
  heads : ∀ {key answer size}, (key, .ok answer) ∈ bucket.heads → answer.size = some size →
    ∃ n, size = .int n
  listings : ∀ {folder pages page object}, (folder, pages) ∈ bucket.listings → .ok page ∈ pages →
    .ok object ∈ page.objects → object.IsTextual

variable {bucket : Bucket} {name : Value}

theorem folderStatus_textual (named : ∃ s, name = .str s) (key : String) :
    (folderStatus name key).IsTextual := by
  refine ⟨?_, ⟨0, rfl⟩, .inr ⟨"", rfl⟩⟩
  unfold folderStatus
  simp only
  split
  · exact named
  · exact ⟨_, rfl⟩

theorem objectStatus_textual {key : String} {size modified owner : Value} {status : Status}
    (counted : ∃ n, size = .int n) (owned : owner.IsOptionalText)
    (known : objectStatus name key size modified owner = .ok status) : status.IsTextual := by
  obtain ⟨milliseconds, -, known⟩ := Outcome.bind_ok known
  cases known
  exact ⟨⟨_, rfl⟩, counted, owned⟩

theorem statFolder_textual (named : ∃ s, name = .str s) {key : String} {status : Status}
    (known : bucket.statFolder name key = .ok status) : status.IsTextual := by
  unfold statFolder at known
  simp only at known
  split at known
  · cases known
  · cases known
    exact folderStatus_textual named _
  · cases known

theorem IsTextual.statKey (textual : bucket.IsTextual) (named : ∃ s, name = .str s) {key : String}
    {status : Status} (known : bucket.statKey name key = .ok status) : status.IsTextual := by
  unfold Bucket.statKey at known
  split at known
  · cases known
    exact folderStatus_textual named _
  · split at known
    · exact statFolder_textual named known
    · split at known
      · rename_i answer found
        split at known
        · rename_i size sized
          have present : (key, .ok answer) ∈ bucket.heads := by
            unfold head at found
            cases looked : bucket.heads.lookup key with
            | none =>
              rw [looked] at found
              cases found
            | some held =>
              rw [looked] at found
              obtain ⟨before, after, same, -⟩ := List.lookup_eq_some_iff.mp looked
              simp only [Option.getD_some] at found
              simp [same, found]
          exact objectStatus_textual (textual.heads present sized) (.inr ⟨"", rfl⟩) known
        · cases known
      · obtain ⟨missing, -, known⟩ := Outcome.bind_ok known
        cases missing with
        | true => exact statFolder_textual named known
        | false => cases known

theorem listedStatus_textual {folder : String} {object : ListedObject} (textual : object.IsTextual)
    {status : Status} (known : listedStatus name folder object = .ok (some status)) :
    status.IsTextual := by
  unfold listedStatus at known
  split at known
  · cases known
  · obtain ⟨owner, owner_eq, known⟩ := Outcome.bind_ok known
    split at known
    · obtain ⟨made, made_eq, same⟩ := Outcome.map_ok known
      cases same
      exact objectStatus_textual textual.size (textual.owner _ owner_eq) made_eq
    · cases known

theorem mem_pageStatuses {folder : String} {page : Page} {statuses : List Status}
    (shown : pageStatuses name folder page = .ok statuses) {status : Status}
    (present : status ∈ statuses) :
    (∃ key, .ok key ∈ page.folders ∧ folderStatus name key = status) ∨
      ∃ object, .ok object ∈ page.objects ∧ listedStatus name folder object = .ok (some status) := by
  obtain ⟨folders, foldersEq, shown⟩ := Outcome.bind_ok shown
  obtain ⟨objects, objectsEq, shown⟩ := Outcome.bind_ok shown
  cases shown
  rcases List.mem_append.mp present with present | present
  · obtain ⟨item, held, known⟩ := Lists.exists_left (Lists.forall₂_of_mapM foldersEq) present
    obtain ⟨key, rfl, same⟩ := Outcome.map_ok known
    exact .inl ⟨key, held, same⟩
  · obtain ⟨option, optionHeld, rfl⟩ := List.mem_filterMap.mp present
    obtain ⟨item, held, known⟩ := Lists.exists_left (Lists.forall₂_of_mapM objectsEq) optionHeld
    obtain ⟨object, rfl, known⟩ := Outcome.bind_ok known
    exact .inr ⟨object, held, known⟩

theorem mem_pagesStatuses {folder : String} {pages : List (Except RequestFault Page)}
    {statuses : List Status} (listed : pagesStatuses name folder pages = .ok statuses)
    {status : Status} (present : status ∈ statuses) :
    ∃ page shown, .ok page ∈ pages ∧ pageStatuses name folder page = .ok shown ∧ status ∈ shown := by
  induction pages generalizing statuses with
  | nil =>
    cases listed
    cases present
  | cons page rest ih =>
    cases page with
    | error fault => cases listed
    | ok page =>
      obtain ⟨here, hereEq, listed⟩ := Outcome.bind_ok listed
      obtain ⟨others, othersEq, listed⟩ := Outcome.bind_ok listed
      cases listed
      rcases List.mem_append.mp present with present | present
      · exact ⟨page, here, List.mem_cons_self, hereEq, present⟩
      · obtain ⟨page, shown, held, same, present⟩ := ih othersEq present
        exact ⟨page, shown, List.mem_cons_of_mem _ held, same, present⟩

theorem pagesStatuses_textual (named : ∃ s, name = .str s) {folder : String}
    {pages : List (Except RequestFault Page)}
    (textual : ∀ {page object}, .ok page ∈ pages → .ok object ∈ page.objects → object.IsTextual)
    {statuses : List Status} (listed : pagesStatuses name folder pages = .ok statuses) :
    ∀ status ∈ statuses, status.IsTextual := by
  intro status present
  obtain ⟨page, shown, held, read, present⟩ := mem_pagesStatuses listed present
  rcases mem_pageStatuses read present with ⟨key, -, rfl⟩ | ⟨object, among, known⟩
  · exact folderStatus_textual named key
  · exact listedStatus_textual (textual held among) known

theorem sortByName_mem {statuses sorted : List Status} (done : sortByName statuses = .ok sorted)
    {status : Status} (present : status ∈ sorted) : status ∈ statuses := by
  unfold sortByName at done
  split at done
  · cases done
    exact (List.mergeSort_perm statuses _).mem_iff.mp present
  · split at done
    · split at done
      · cases done
        exact present
      · cases done
    · cases done
      exact present

theorem IsTextual.listKey (textual : bucket.IsTextual) (named : ∃ s, name = .str s) {key : String}
    {statuses : List Status} (listed : bucket.listKey name key = .ok statuses) :
    ∀ status ∈ statuses, status.IsTextual := by
  obtain ⟨shown, shown_eq, sorted⟩ := Outcome.bind_ok listed
  intro status present
  refine pagesStatuses_textual named ?_ shown_eq status (sortByName_mem sorted present)
  intro page object page_mem object_mem
  unfold pages at page_mem
  cases looked : bucket.listings.lookup (folderOf key) with
  | none =>
    rw [looked] at page_mem
    cases page_mem
  | some held =>
    obtain ⟨before, after, same, -⟩ := List.lookup_eq_some_iff.mp looked
    rw [looked, Option.getD_some] at page_mem
    have kept : (folderOf key, held) ∈ bucket.listings := by simp [same]
    exact textual.listings kept page_mem object_mem

theorem IsTextual.backend (textual : bucket.IsTextual) (named : ∃ s, name = .str s) :
    (bucket.backend name).IsTextual := by
  constructor
  · intro path status known
    obtain ⟨key, -, known⟩ := Outcome.bind_ok known
    exact textual.statKey named known
  · intro path children listed
    obtain ⟨key, -, listed⟩ := Outcome.bind_ok listed
    exact textual.listKey named listed

end Bucket
end HarvestPlan
