import HarvestPlan.Proofs.Harvest.Local
import HarvestPlan.Proofs.Harvest.Pruned
import HarvestPlan.Proofs.Harvest.Through

open HarvestPlan.Path (Route)

namespace HarvestPlan

def Entry.isSpared (lost : String) (hidden : Bool) (entry : Entry) : Bool :=
  match entry.fullPath with
  | .str path => Path.isSpared lost hidden path
  | _ => true

/-- One result is another without what a lost place takes away, and with one warning for the place. -/
structure HarvestResult.Isolates (lost message : String) (hidden : Bool)
    (result failed : HarvestResult) : Prop where
  entries : failed.entries = result.entries.filter fun entry => entry.isSpared lost hidden
  warnings : failed.warnings.Perm
    ((result.warnings.filter fun warning => !Path.isBelow lost warning.path) ++
      [⟨.readError, lost, message⟩])

namespace Harvest

variable {fs : Filesystem} {route own : Route} {top : Node} {tree : Tree}

theorem entries_filter {credentials : Credentials} {root : String} {statuses : List Status}
    {entries spared : List Entry} {lost : String} {hidden : Bool}
    (made : statuses.Forall₂ (fun status entry => entryOf root credentials status = .ok entry) entries)
    (kept : (statuses.filter fun status => Path.isSpared lost hidden status.path).Forall₂
      (fun status entry => entryOf root credentials status = .ok entry) spared) :
    spared = entries.filter fun entry => entry.isSpared lost hidden := by
  have alike : ∀ status entry, entryOf root credentials status = .ok entry →
      (Path.isSpared lost hidden status.path = true ↔ entry.isSpared lost hidden = true) := by
    intro status entry same
    obtain ⟨-, size, basePath, -, rfl⟩ := entryOf_ok same
    exact Iff.rfl
  have filtered := List.rel_filter (fun status entry same => alike status entry same) made
  refine List.right_unique_forall₂' ?_ kept filtered
  intro status entry other same otherSame
  exact Except.ok.inj (same.symm.trans otherSame)

/-- A walk that went through goes through where a place is lost. -/
theorem visitRoot_isolates (proper : fs.IsProper) {touch : Node → Node} (light : Node.IsLight touch)
    {credentials : Credentials} {cancel : Cancel} {root : String} {before after : Progress}
    (fresh : before.entries = #[]) (silent : before.warnings = #[])
    (absolute : Path.absolute fs.directory root = route.path) (stands : fs.Stands route own top)
    (known : fs.statusOf route.path top = .ok tree.status) (directory : tree.status.isDirectory = true)
    (looked : fs.stat route.path = .ok tree.status) (shown : tree.IsOf fs.backend)
    (visited : visit credentials cancel (fs.normalizeRoot root) tree before = .ok after)
    {lost : String × Node} {error : SystemError} {hidden : Bool}
    (loses : fs.Loses (fs.mapNodes touch).backend (route.path, top) lost error hidden) :
    ∃ last, visitRoot (localSetting (fs.mapNodes touch) credentials cancel) root before = .ok last ∧
      HarvestResult.Isolates lost.1 error.message hidden (.ofProgress after) (.ofProgress last) := by
  obtain ⟨read, ⟨entries, noted, made⟩, warned⟩ := visit_adds tree visited
  obtain ⟨pruned, shownPruned, prunes⟩ := Tree.exists_pruned proper stands loses shown read known
  have fewer : pruned.statuses.Sublist tree.statuses := prunes.statuses ▸ List.filter_sublist
  obtain ⟨last, visitedPruned⟩ := visit_sublist visited prunes.read fewer
  obtain ⟨-, ⟨spared, notedPruned, kept⟩, warnedPruned⟩ := visit_adds pruned visitedPruned
  simp only [fresh, silent, List.nil_append] at noted warned notedPruned warnedPruned
  refine ⟨last, ?_, ?_, ?_⟩
  · have view : RootView.IsOf (fs.mapNodes touch).backend root
        (.seen (fs.normalizeRoot root) pruned) := by
      refine .seen rfl ?_ shownPruned
      change (fs.mapNodes touch).stat (Path.absolute fs.directory (fs.normalizeRoot root)) = _
      rw [Filesystem.absolute_normalizeRoot absolute, Filesystem.stat_mapNodes light, looked,
        prunes.status]
    have room : (RootView.seen (fs.normalizeRoot root) pruned).size ≤
        (fs.mapNodes touch).nodes.length := by
      have small := Filesystem.size_le proper stands shown known
      have length := fewer.length_le
      rw [← pruned.size_eq, ← tree.size_eq] at length
      simp only [RootView.size, Filesystem.mapNodes, List.length_map]
      omega
    rw [visitRoot_local view room, visitView, prunes.status, treeRoot, if_pos directory]
    exact visitedPruned
  · change last.entries.toList = after.entries.toList.filter _
    rw [noted, notedPruned]
    rw [prunes.statuses] at kept
    exact entries_filter made kept
  · change last.warnings.toList.Perm ((after.warnings.toList.filter _) ++ _)
    obtain ⟨status, present, knownLost⟩ :=
      Tree.statuses_complete proper shown read stands known loses.reached
    have paths := Tree.paths_nodup proper shown stands known
    obtain ⟨front, back, split⟩ := List.append_of_mem present
    rw [split] at paths
    have once : (tree.statuses.filter fun status => status.path == lost.1) = [status] := by
      rw [split, ← (Filesystem.statusOf_ok knownLost).1]
      exact Lists.filter_same paths
    rw [warned, warnedPruned]
    simpa [once] using prunes.warnings

theorem run_mapNodes {surroundings : Surroundings} {uri : Json.Value} {given : Option Credentials}
    {root : String} {cancel : Cancel} {touch : Node → Node} (light : Node.IsLight touch)
    (chosen : chooseCredentials (.localFiles uri) given = .ok (given.getD (.localFiles uri)))
    (opened : Connection.openLocal surroundings.filesystem uri = .ok surroundings.filesystem.backend)
    {last : Progress} (quiet : cancel.isSet 0 = false)
    (walked : visitRoot (localSetting (surroundings.filesystem.mapNodes touch)
      (given.getD (.localFiles uri)) cancel) root ⟨#[], #[], 1⟩ = .ok last) :
    (run { surroundings with filesystem := surroundings.filesystem.mapNodes touch }
      (.localFiles uri) given [root] true cancel).result = .ok (.ofProgress last) := by
  have reopened : Connection.openIn
      { surroundings with filesystem := surroundings.filesystem.mapNodes touch } (.localFiles uri) =
        .ok (surroundings.filesystem.mapNodes touch).backend := by
    change Connection.openLocal (surroundings.filesystem.mapNodes touch) uri = _
    rw [Filesystem.openLocal_mapNodes light, opened]
    rfl
  exact run_through chosen reopened (visitRoots_single_ok.mpr ⟨quiet, walked⟩)

/-- Of a recursive harvest of a local directory that goes through, each entry stands for a node. If the
    node is a directory that can no longer be listed, or lies below the root and can no longer be looked
    at, the harvest goes through all the same: it has lost what lies below the node, and the node itself
    if that cannot be looked at, and has one warning more. -/
theorem localHarvest_isolates (surroundings : Surroundings) (uri : Json.Value)
    (given : Option Credentials) (root : String) (cancel : Cancel)
    (proper : surroundings.filesystem.IsProper) :
    let fs := surroundings.filesystem
    let start := Path.absolute fs.directory root
    let harvest := fun fs => (run { surroundings with filesystem := fs } (.localFiles uri) given [root]
      true cancel).result
    ∀ status result, fs.stat start = .ok status → status.isDirectory = true →
      harvest fs = .ok result →
      ∃ top, fs.lookup start = .ok top ∧ ∀ entry ∈ result.entries, ∃ path node,
        entry.fullPath = .str path ∧ fs.Reaches (start, top) (path, node) ∧ ∀ number reason,
          (entry.isFolder = .bool true →
            ∃ failed, harvest (fs.closing node (.system number reason)) = .ok failed ∧
              HarvestResult.Isolates path (SystemError.numbered number reason path).message false
                result failed) ∧
          (path ≠ start →
            ∃ failed, harvest (fs.concealing node (.system number reason)) = .ok failed ∧
              HarvestResult.Isolates path (SystemError.numbered number reason path).message true
                result failed) := by
  intro fs start harvest status result looked directory done
  obtain ⟨backend, after, opened, walked, rfl⟩ := run_ok done
  obtain rfl := openLocal_ok opened
  have chosen := run_chosen done
  obtain ⟨quiet, walked⟩ := visitRoots_single_ok.mp walked
  obtain ⟨route, own, top, tree, absolute, found, stands, known, rfl, shown, visited⟩ :=
    visitRoot_local_seen proper walked looked directory
  obtain ⟨read, ⟨entries, noted, made⟩, -⟩ := visit_adds tree visited
  have absolute : start = route.path := absolute
  rw [absolute] at looked ⊢
  refine ⟨top, found, fun entry present => ?_⟩
  have present : entry ∈ entries := by simpa [HarvestResult.ofProgress, noted] using present
  obtain ⟨shownStatus, held, same⟩ := Lists.exists_left made present
  obtain ⟨⟨path, node⟩, reaches, knownNode⟩ :=
    Tree.statuses_sound proper shown stands known shownStatus held
  obtain ⟨samePath, -, kind⟩ := Filesystem.statusOf_ok knownNode
  obtain ⟨-, size, basePath, -, rfl⟩ := entryOf_ok same
  have lose : ∀ {touch : Node → Node}, Node.IsLight touch → ∀ {error : SystemError} {hidden : Bool},
      fs.Loses (fs.mapNodes touch).backend (route.path, top) (path, node) error hidden →
      ∃ failed, harvest (fs.mapNodes touch) = .ok failed ∧
        HarvestResult.Isolates path error.message hidden (.ofProgress after) failed := by
    intro touch light error hidden loses
    obtain ⟨last, walkedAgain, isolates⟩ := visitRoot_isolates proper light rfl rfl absolute stands
      known directory looked shown visited loses
    exact ⟨_, run_mapNodes light chosen opened quiet walkedAgain, isolates⟩
  refine ⟨path, node, congrArg Json.Value.str samePath, reaches, fun number reason => ⟨?_, ?_⟩⟩
  · intro folder
    have isFolder : shownStatus.isDirectory = true := Json.Value.bool.inj folder
    rw [isFolder] at kind
    exact lose (Node.onlyAt_isLight (Filesystem.unlistable_isLight _) _)
      (Filesystem.closing_loses proper stands reaches kind number reason)
  · intro other
    have below : (path, node) ≠ (route.path, top) := fun same => other (congrArg Prod.fst same)
    exact lose (Node.onlyAt_isLight (Filesystem.hidden_isLight _) _)
      (Filesystem.concealing_loses proper stands reaches below knownNode number reason)

theorem linked_entry {result : HarvestResult}
    (done : (run linkedSurroundings (.localFiles (.str "file:///")) none ["/"] true .never).result =
      .ok result) :
    ∃ entry ∈ result.entries, entry.fullPath = .str "/" ∧ entry.isFolder = .bool true := by
  obtain ⟨backend, after, opened, walked, rfl⟩ := run_ok done
  obtain rfl := openLocal_ok opened
  have looked : linkedFilesystem.stat (Path.absolute linkedFilesystem.directory "/") =
      .ok ⟨"/", .str "/", .int 0, 0, .str "", true, 0o755⟩ := by decide +kernel
  obtain ⟨top, met, found, complete⟩ := visitRoot_local_complete linked_isProper rfl rfl
    (visitRoots_single_ok.mp walked).2 looked rfl
  have noted : ∃ entry ∈ (HarvestResult.ofProgress after).entries,
      Shows linkedFilesystem "/" (.localFiles (.str "file:///"))
        (Path.absolute linkedFilesystem.directory "/", top) entry :=
    Lists.exists_left complete.shown.flip ((complete.reached _).mpr .refl)
  obtain ⟨entry, present, shows⟩ := noted
  obtain ⟨directory, kind, isFolder⟩ := shows.isFolder
  have absolute : Path.absolute linkedFilesystem.directory "/" = "/" := by decide +kernel
  have topIs : linkedFilesystem.lookup "/" = .ok linkedTop := rfl
  rw [absolute] at found
  obtain rfl : linkedTop = top := Except.ok.inj (topIs.symm.trans found)
  refine ⟨entry, present, ?_, ?_⟩
  · rw [shows.fullPath, absolute]
  · rw [isFolder, ← Except.ok.inj kind]
    rfl

theorem localHarvest_isolates_linked : linkedFilesystem.IsProper ∧ ∃ result node failed,
    (run linkedSurroundings (.localFiles (.str "file:///")) none ["/"] true .never).result =
      .ok result ∧
    (run { linkedSurroundings with
      filesystem := linkedFilesystem.closing node (.system (.int 13) "Permission denied") }
      (.localFiles (.str "file:///")) none ["/"] true .never).result = .ok failed ∧
    HarvestResult.Isolates "/" "[Errno 13] Permission denied: '/'" false result failed := by
  obtain ⟨result, done⟩ := linked_goesThrough
  obtain ⟨top, found, each⟩ := localHarvest_isolates linkedSurroundings (.str "file:///") none "/"
    .never linked_isProper ⟨"/", .str "/", .int 0, 0, .str "", true, 0o755⟩ result
    (by decide +kernel) rfl done
  obtain ⟨entry, present, fullPath, isFolder⟩ := linked_entry done
  obtain ⟨path, node, samePath, -, lost⟩ := each entry present
  obtain rfl : "/" = path := Json.Value.str.inj (fullPath.symm.trans samePath)
  obtain ⟨failed, again, isolates⟩ := (lost (.int 13) "Permission denied").1 isFolder
  exact ⟨linked_isProper, result, node, failed, done, again, isolates⟩

end Harvest
end HarvestPlan
