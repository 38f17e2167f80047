import HarvestPlan.Harvest
import HarvestPlan.Proofs.Storage.Causes

namespace HarvestPlan

inductive Failure.IsOfEntry : Failure → Prop
  | outside (path root : String) : IsOfEntry (.refused (.outsideRoot path root))
  | unchecked (fault : EntryFault) : IsOfEntry (.entry fault)

inductive Failure.IsOfStart : Failure → Prop
  | storage {cause : Failure} (own : cause.IsOfNode) : IsOfStart cause
  | notOpened (tag : String) (fault : OpenFault) : IsOfStart (.notOpened tag fault)
  | authority (fault : AuthorityFault) : IsOfStart (.refused (.badAuthority fault))
  | credentials (tag : Json.Value) (expected : String) :
      IsOfStart (.refused (.foreignCredentials tag expected))
  | lacksOperation : IsOfStart .lacksOperation

theorem Failure.IsOfStorage.notOfEntry {cause : Failure} (own : cause.IsOfStorage) :
    ¬cause.IsOfEntry := by
  intro entry
  cases own <;> cases entry

theorem Failure.IsOfStart.notOfEntry {cause : Failure} (own : cause.IsOfStart) :
    ¬cause.IsOfEntry := by
  intro entry
  cases own with
  | storage own => exact (Failure.IsOfStorage.ofNode own).notOfEntry entry
  | _ => cases entry

theorem Harvest.entryOf_fails (root : String) (credentials : Credentials) (status : Status) :
    FailsBy Failure.IsOfEntry (entryOf root credentials status) := by
  have base : FailsBy Failure.IsOfEntry (BasePath.compute status.path root status.name) := by
    unfold BasePath.compute BasePath.underRoot
    intro cause failed
    split at failed
    · cases failed
    · simp only at failed
      split at failed <;> cases failed
      exact .outside _ _
  refine base.bind fun basePath cause failed => ?_
  obtain ⟨fault, -, rfl⟩ := Outcome.mapError_error failed
  exact .unchecked fault

namespace Connection

theorem parseUri_fails (uri : Json.Value) : FailsBy Failure.IsOfStart (parseUri uri) := by
  have parsing : ∀ text, FailsBy Failure.IsOfStart (Uri.parse text) := by
    intro text cause failed
    unfold Uri.parse at failed
    rcases Outcome.bind_error failed with failed | ⟨checked, -, failed⟩
    · obtain ⟨fault, -, rfl⟩ := Outcome.mapError_error failed
      exact .authority fault
    · cases failed
  unfold parseUri
  split
  · exact parsing _
  · split
    · exact parsing _
    · exact .error .lacksOperation

theorem openLocal_fails (fs : Filesystem) (uri : Json.Value) :
    FailsBy Failure.IsOfStart (openLocal fs uri) := by
  have mounting : ∀ mount, FailsBy Failure.IsOfNode (fs.isDirectory mount) := by
    intro mount
    unfold Filesystem.isDirectory
    split
    · exact Filesystem.isDirectory_fails _
    · exact .ok false
    · rename_i failure _ looked
      exact .error (Filesystem.lookup_fails fs mount failure looked)
  refine (parseUri_fails uri).bind fun parsed => ?_
  simp only
  split
  · exact .error (.notOpened _ _)
  · refine ((mounting _).weaken .storage).bind fun isDirectory => ?_
    cases isDirectory with
    | false => exact .error (.notOpened _ _)
    | true => exact .ok _

end Connection

theorem Harvest.chooseCredentials_fails (connection : Connection) (given : Option Credentials) :
    FailsBy Failure.IsOfStart (chooseCredentials connection given) := by
  unfold chooseCredentials
  simp only
  split
  · exact .error .lacksOperation
  · split
    · exact .ok _
    · exact .error (.credentials _ _)

end HarvestPlan
