import HarvestPlan.Proofs.Harvest.Noted
import HarvestPlan.Proofs.Storage.Textual

namespace HarvestPlan.Harvest

open Json (Value)

def IsPlainFile (entry : Entry) : Prop := entry.IsPlain ∧ ∃ n, entry.size = .int n

theorem entryOf_plain {root : String} {credentials : Credentials} (known : credentials.IsTextual)
    {status : Status} (textual : status.IsTextual) {entry : Entry}
    (made : entryOf root credentials status = .ok entry) : IsPlainFile entry := by
  obtain ⟨⟨name, name_eq⟩, ⟨bytes, bytes_eq⟩, owner⟩ := textual
  obtain ⟨checked, size, basePath, sized, rfl⟩ := entryOf_ok made
  rw [bytes_eq] at sized
  obtain rfl := Option.some.inj sized
  have ownerScalar : Json.IsScalar (knownOwner status.owner) := by
    unfold knownOwner
    split
    · trivial
    · exact owner.isScalar
  refine ⟨?_, bytes, rfl⟩
  constructor
  case fileName =>
    rw [name_eq]
    trivial
  case owner => exact ownerScalar
  case credentials => exact known
  case checked => exact checked
  all_goals trivial

end HarvestPlan.Harvest

namespace HarvestPlan

open Json (Value)

namespace Connection

inductive IsTextual : Connection → Prop
  | localFiles (uri : String) : IsTextual (.localFiles (.str uri))
  | amazonS3 (accessKeyId secretKeyId bucketName : String) {region endpointUrl : Value}
      (optional : region.IsOptionalText) :
      IsTextual (.amazonS3 (.str accessKeyId) (.str secretKeyId) (.str bucketName) region
        endpointUrl)

def ReachesTextual (connection : Connection) (surroundings : Surroundings) : Prop :=
  match connection with
  | .localFiles _ => surroundings.filesystem.IsTextual
  | .amazonS3 .. => surroundings.bucket.IsTextual

theorem IsTextual.credentials {connection : Connection} (textual : connection.IsTextual) :
    connection.credentials.IsTextual := by
  cases textual with
  | localFiles uri => exact .localFiles uri
  | amazonS3 accessKeyId secretKeyId bucketName optional =>
    exact .amazonS3 accessKeyId secretKeyId bucketName optional

theorem openBucket_ok {bucket : Bucket} {name : Value} {backend : Backend}
    (opened : openBucket bucket name = .ok backend) : backend = bucket.backend name := by
  unfold openBucket at opened
  simp only at opened
  split at opened
  · cases opened
  · cases opened
  · exact (Except.ok.inj opened).symm

theorem IsTextual.backend {connection : Connection} (textual : connection.IsTextual)
    {surroundings : Surroundings} (reaches : connection.ReachesTextual surroundings)
    {backend : Backend} (opened : connection.openIn surroundings = .ok backend) :
    backend.IsTextual := by
  cases textual with
  | localFiles uri =>
    rw [Harvest.openLocal_ok opened]
    exact reaches.backend
  | amazonS3 accessKeyId secretKeyId bucketName optional =>
    rw [openBucket_ok opened]
    exact reaches.backend ⟨bucketName, rfl⟩

end Connection

theorem Backend.IsTextual.given {backend : Backend} (textual : backend.IsTextual) {status : Status}
    (gives : backend.Gives status) : status.IsTextual := by
  cases gives with
  | looked looking => exact textual.stat looking
  | listed listing present => exact textual.list listing status present

theorem Harvest.run_plain {surroundings : Surroundings} {connection : Connection}
    (textual : connection.IsTextual) (reaches : connection.ReachesTextual surroundings)
    {roots : List String} {recursive : Bool} {cancel : Cancel} {result : HarvestResult}
    (done : (run surroundings connection (some connection.credentials) roots recursive
      cancel).result = .ok result) : ∀ entry ∈ result.entries, IsPlainFile entry := by
  intro entry present
  have noted : entry ∈ (run surroundings connection (some connection.credentials) roots recursive
      cancel).noted := by
    rw [HarvestOutcome.noted, done]
    exact present
  obtain ⟨backend, base, status, opened, gives, made⟩ := run_made _ _ _ _ _ _ entry noted
  exact entryOf_plain textual.credentials ((textual.backend reaches opened).given gives) made

end HarvestPlan
