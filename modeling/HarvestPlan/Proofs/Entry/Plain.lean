import HarvestPlan.Entry.Record
import HarvestPlan.Proofs.Entry.Checked
import HarvestPlan.Proofs.Entry.Fields
import HarvestPlan.Proofs.Json.Flat

namespace HarvestPlan

open Json (Value Fields IsScalar)

def Json.Value.IsOptionalText (value : Value) : Prop := value = .null ∨ ∃ s, value = .str s

theorem Json.Value.IsOptionalText.isScalar {value : Value} (optional : value.IsOptionalText) :
    IsScalar value := by
  rcases optional with rfl | ⟨s, rfl⟩ <;> trivial

namespace Credentials

/-- Texts for all fields; only a region may be left open. -/
inductive IsTextual : Credentials → Prop
  | localFiles (uri : String) : IsTextual (.localFiles (.str uri))
  | amazonS3 (accessKeyId secretKeyId bucketName : String) {region : Value}
      (optional : region.IsOptionalText) :
      IsTextual (.amazonS3 (.str accessKeyId) (.str secretKeyId) region (.str bucketName))

theorem IsTextual.backend {credentials : Credentials} (textual : credentials.IsTextual) :
    ∃ backend, credentials.backend? = some backend := by
  cases textual <;> exact ⟨_, rfl⟩

theorem IsTextual.isScalar {credentials : Credentials} (textual : credentials.IsTextual) :
    ∀ field ∈ credentials.fields, IsScalar field.2 := by
  cases textual with
  | localFiles uri =>
    intro field present
    simp only [fields, List.mem_cons, List.not_mem_nil, or_false] at present
    rcases present with rfl | rfl <;> trivial
  | amazonS3 accessKeyId secretKeyId bucketName optional =>
    intro field present
    simp only [fields, List.mem_cons, List.not_mem_nil, or_false] at present
    rcases present with rfl | rfl | rfl | rfl | rfl
    case inr.inr.inr.inl => exact optional.isScalar
    all_goals trivial

end Credentials

namespace Entry

structure IsPlain (entry : Entry) : Prop where
  fileName : IsScalar entry.fileName
  fullPath : IsScalar entry.fullPath
  size : IsScalar (.ofQuantity entry.size)
  timestamp : IsScalar entry.timestamp
  owner : IsScalar entry.owner
  isFolder : IsScalar entry.isFolder
  permission : IsScalar (.ofQuantity entry.permission)
  credentials : entry.credentials.IsTextual
  checked : ofDraft entry.draft = .ok entry

def record (entry : Entry) : Fields := entry.fixedFields ++ entry.credentials.fields

theorem toRecord_of_backend {entry : Entry} {backend : BackendType}
    (known : entry.credentials.backend? = some backend) : entry.toRecord = .ok entry.record := by
  unfold Entry.toRecord
  rw [Credentials.toFields_of_backend known]
  rfl

theorem IsPlain.toRecord {entry : Entry} (plain : entry.IsPlain) :
    entry.toRecord = .ok entry.record := by
  obtain ⟨backend, known⟩ := plain.credentials.backend
  exact toRecord_of_backend known

theorem draftOf_record (entry : Entry) (credentials : Credentials) :
    draftOf entry.record credentials = { entry.draft with credentials := credentials } := by
  simp [draftOf, draft, record, fixedFields, Fields.findOrNull, Fields.find?, List.lookup_cons]

theorem missingFields_record (entry : Entry) : missingFields entry.record = [] := by
  simp [missingFields, fixedSchema, record, fixedFields, Fields.has]

theorem ofRecord_record {entry : Entry} (checked : ofDraft entry.draft = .ok entry) :
    ofRecord entry.record (some entry.credentials) = .ok entry := by
  have drafted : draftOf entry.record entry.credentials = entry.draft := entry.draftOf_record _
  rw [ofRecord, entry.missingFields_record]
  change ofDraft (draftOf entry.record entry.credentials) = .ok entry
  rw [drafted, checked]

theorem IsPlain.isScalar_record {entry : Entry} (plain : entry.IsPlain) :
    ∀ field ∈ entry.record, IsScalar field.2 := by
  intro field present
  rcases List.mem_append.mp present with fixed | present
  · simp only [fixedFields, List.mem_cons, List.not_mem_nil, or_false] at fixed
    rcases fixed with rfl | rfl | rfl | rfl | rfl | rfl | rfl | rfl
    · exact plain.fileName
    · exact plain.fullPath
    · exact plain.size
    · exact plain.timestamp
    · exact plain.owner
    · exact plain.isFolder
    · trivial
    · exact plain.permission
  · exact plain.credentials.isScalar field present

theorem nodup_record (entry : Entry) : (entry.record.map (·.1)).Nodup := by
  cases fields : entry.credentials <;>
    simp [record, fixedFields, Credentials.fields, fields, backendTypeField]

def line (entry : Entry) : String := Json.write (.obj entry.record)

theorem IsPlain.read_line {entry : Entry} (plain : entry.IsPlain)
    (writable : Json.isWritable (.obj entry.record) = true) :
    Json.read entry.line = .ok (.obj entry.record) :=
  Json.read_write (by simp [record, fixedFields]) plain.isScalar_record writable
    entry.nodup_record

theorem ofFields_record {entry : Entry} {backend : BackendType}
    (known : entry.credentials.backend? = some backend) :
    Credentials.ofFields entry.record = .ok entry.credentials := by
  unfold record
  generalize entry.credentials = credentials at known
  cases credentials <;> cases known <;> rfl

theorem IsPlain.ofFields {entry : Entry} (plain : entry.IsPlain) :
    Credentials.ofFields entry.record = .ok entry.credentials := by
  obtain ⟨backend, known⟩ := plain.credentials.backend
  exact ofFields_record known

end Entry
end HarvestPlan
