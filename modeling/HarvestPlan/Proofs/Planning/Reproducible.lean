import HarvestPlan.Proofs.Harvest.Alike
import HarvestPlan.Proofs.Harvest.Local
import HarvestPlan.Proofs.Planning.Published

namespace HarvestPlan

open Harvest (run)
open Outcome (Follows)

namespace Surroundings

def rearranged (surroundings : Surroundings) (nodes : List Node) : Surroundings :=
  { surroundings with filesystem := surroundings.filesystem.rearranged nodes }

/-- What is harvested, planned and stored comes out the same elsewhere: the same entries and warnings,
    these in any order, the same splits, and the same store. -/
structure Reproduces (surroundings other : Surroundings) : Prop where
  harvest : ∀ connection given roots recursive cancel result,
    (run surroundings connection given roots recursive cancel).result = .ok result →
      ∃ again, (run other connection given roots recursive cancel).result = .ok again ∧
        again.IsLike result
  plan : ∀ config cancel planned, Planned.make surroundings config cancel = .ok planned →
    ∃ again, Planned.make other config cancel = .ok ⟨again, planned.plan⟩ ∧
      again.IsLike planned.result
  store : ∀ config cancel target saved planned,
    Planned.publish surroundings config cancel target = (saved, .ok planned) →
      ∃ again, Planned.publish other config cancel target = (saved, .ok ⟨again, planned.plan⟩) ∧
        again.IsLike planned.result

end Surroundings

theorem HarvestResult.IsLike.refl (result : HarvestResult) : result.IsLike result := ⟨rfl, .refl _⟩

theorem Filesystem.backend_isLike {fs : Filesystem} {nodes : List Node} (distinct : fs.IsDistinct)
    (same : nodes.Perm fs.nodes) : (fs.rearranged nodes).backend.IsLike fs.backend where
  normalizeRoot _ := rfl
  stat path := stat_rearranged distinct same (Path.absolute fs.directory path)
  list path := list_rearranged distinct same (Path.absolute fs.directory path)

namespace Harvest

variable {surroundings : Surroundings} {nodes : List Node}

theorem run_rearranged (distinct : surroundings.filesystem.IsDistinct)
    (same : nodes.Perm surroundings.filesystem.nodes) (connection : Connection)
    (given : Option Credentials) (roots : List String) (recursive : Bool) (cancel : Cancel) :
    Follows HarvestResult.IsLike
      (run (surroundings.rearranged nodes) connection given roots recursive cancel).result
      (run surroundings connection given roots recursive cancel).result := by
  cases connection with
  | amazonS3 _ _ _ _ _ => exact fun result done => ⟨result, done, .refl result⟩
  | localFiles uri =>
    intro result done
    obtain ⟨backend, after, opened, walked, rfl⟩ := run_ok done
    have chosen := run_chosen done
    obtain rfl := openLocal_ok opened
    have openedLocal : Connection.openLocal surroundings.filesystem uri =
        .ok surroundings.filesystem.backend := opened
    have reopened : Connection.openIn (surroundings.rearranged nodes) (.localFiles uri) =
        .ok (surroundings.filesystem.rearranged nodes).backend := by
      change Connection.openLocal (surroundings.filesystem.rearranged nodes) uri = _
      rw [Filesystem.openLocal_rearranged distinct same, openedLocal]
      rfl
    have limit : Connection.walkLimit (surroundings.rearranged nodes) (.localFiles uri) =
        Connection.walkLimit surroundings (.localFiles uri) := by
      change twoTo (nodes.length + 64) = twoTo (surroundings.filesystem.nodes.length + 64)
      rw [same.length_eq]
    generalize Connection.walkLimit surroundings (.localFiles uri) = most at walked limit
    obtain ⟨last, walkedAgain, alike⟩ :=
      visitRoots_follows (Filesystem.backend_isLike distinct same) _ roots after walked
    have walkedThere : visitRoots ⟨(surroundings.filesystem.rearranged nodes).backend,
        given.getD (.localFiles uri), recursive, cancel,
        Connection.walkLimit (surroundings.rearranged nodes) (.localFiles uri)⟩
        BackendType.localFiles.tag roots = .ok last := by
      rw [limit]
      exact walkedAgain
    refine ⟨_, run_through chosen reopened walkedThere, ?_, alike.warnings⟩
    exact congrArg Array.toList alike.entries

end Harvest

namespace Planned

theorem ofHarvest_follows {first second : Except Harvest.Stopped HarvestResult}
    (follows : Follows HarvestResult.IsLike second first) (cap : Int) :
    Follows (fun again planned => again.plan = planned.plan ∧ again.result.IsLike planned.result)
      (ofHarvest second cap) (ofHarvest first cap) := by
  refine follows.bind fun result again alike => ?_
  have members : membersOf again = membersOf result := by rw [membersOf, alike.entries, membersOf]
  rw [members]
  cases Balance.plan (membersOf result) cap with
  | error cause => exact .of_error _
  | ok plan => exact .of_ok ⟨rfl, alike⟩

end Planned

theorem Surroundings.rearranged_reproduces_once {surroundings : Surroundings} {nodes : List Node}
    (distinct : surroundings.filesystem.IsDistinct)
    (same : nodes.Perm surroundings.filesystem.nodes) :
    surroundings.Reproduces (surroundings.rearranged nodes) := by
  have plan : ∀ config cancel planned, Planned.make surroundings config cancel = .ok planned →
      ∃ again, Planned.make (surroundings.rearranged nodes) config cancel =
        .ok ⟨again, planned.plan⟩ ∧ again.IsLike planned.result := by
    intro config cancel planned made
    have follows := Harvest.run_rearranged distinct same config.connection
      (some config.credentials) config.sourcePaths.toList config.isRecursive cancel
    obtain ⟨⟨again, _⟩, remade, rfl, alike⟩ :=
      Planned.ofHarvest_follows follows config.cap planned made
    exact ⟨again, remade, alike⟩
  constructor
  case harvest => exact fun connection given roots recursive cancel =>
    Harvest.run_rearranged distinct same connection given roots recursive cancel
  case plan => exact plan
  case store =>
    intro config cancel target saved planned published
    obtain ⟨made, saving⟩ := Planned.store_ok published
    obtain ⟨again, remade, alike⟩ := plan config cancel planned made
    refine ⟨again, ?_, alike⟩
    rw [Planned.publish, remade]
    simp only [Planned.store, saving]

/-- Two filesystems of the same nodes are as good as each other for a plan, in whatever order these are
    met. Paths are known by nodes of their own, and no name occurs twice in a directory. -/
theorem Surroundings.rearranged_reproduces (surroundings : Surroundings) (nodes : List Node)
    (distinct : surroundings.filesystem.IsDistinct)
    (same : nodes.Perm surroundings.filesystem.nodes) :
    surroundings.Reproduces (surroundings.rearranged nodes) ∧
      (surroundings.rearranged nodes).Reproduces surroundings :=
  ⟨rearranged_reproduces_once distinct same,
    rearranged_reproduces_once (distinct.rearranged same) same.symm⟩

namespace Harvest

theorem rearranged_reproduces_linked : linkedFilesystem.IsDistinct ∧
    linkedFilesystem.nodes.reverse.Perm linkedFilesystem.nodes ∧ ∃ result again,
      (run linkedSurroundings (.localFiles (.str "file:///")) none ["/"] true .never).result =
        .ok result ∧
      (run (linkedSurroundings.rearranged linkedFilesystem.nodes.reverse)
        (.localFiles (.str "file:///")) none ["/"] true .never).result = .ok again ∧
      again.IsLike result := by
  have distinct : linkedFilesystem.IsDistinct := ⟨by decide, by decide +kernel⟩
  have same := List.reverse_perm linkedFilesystem.nodes
  obtain ⟨result, done⟩ := linked_goesThrough
  obtain ⟨again, doneAgain, alike⟩ :=
    (Surroundings.rearranged_reproduces linkedSurroundings linkedFilesystem.nodes.reverse distinct
      same).1.harvest _ _ _ _ _ result done
  exact ⟨distinct, same, result, again, done, doneAgain, alike⟩

end Harvest
end HarvestPlan
