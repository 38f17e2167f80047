import HarvestPlan.Proofs.Entry.Plain

namespace HarvestPlan.Entry

open Json (Value Fields)

def fixedNames : List String := fixedSchema.map (·.1)

def schemaNames (backend : BackendType) : List String := fixedNames ++ backend.names

theorem recordSchema_tag (backend : BackendType) : ∃ schema,
    recordSchema (.str backend.tag) = .ok schema ∧ schema.map (·.1) = schemaNames backend := by
  cases backend <;> exact ⟨_, rfl, rfl⟩

theorem names_record {entry : Entry} {backend : BackendType}
    (known : entry.credentials.backend? = some backend) :
    entry.record.map (·.1) = schemaNames backend := by
  rw [record, List.map_append, Credentials.names_of_backend known]
  rfl

/-- A record that an entry of the backend can be made from. -/
structure IsEntryRecord (backend : BackendType) (record : Fields) : Prop where
  fixed : ∀ name ∈ fixedNames, record.has name = true
  tag : record.find? backendTypeField = some (.str backend.tag)
  own : ∀ name ∈ backend.fieldNames, record.has name = true
  size : ∃ size, record.find? "fileSize" = some (.ofQuantity size) ∧ size.less (.int 0) = false
  permission : ∃ permission, record.find? "permission" = some (.ofQuantity permission) ∧
    IsPermission permission
  basePath : ∃ path, record.find? "basePath" = some (.str path) ∧ path.toList.head? ≠ some '/'

theorem missingFields_eq_nil_iff {record : Fields} :
    missingFields record = [] ↔ ∀ name ∈ fixedNames, record.has name = true := by
  simp [missingFields, fixedNames, List.filter_eq_nil_iff]

theorem ofRecord_eq_ok_iff {record : Fields} {entry : Entry} :
    ofRecord record none = .ok entry ↔ (∀ name ∈ fixedNames, record.has name = true) ∧
      ∃ credentials, Credentials.ofFields record = .ok credentials ∧
        ofDraft (draftOf record credentials) = .ok entry := by
  rw [← missingFields_eq_nil_iff, ofRecord]
  split
  · rename_i complete
    constructor
    · intro made
      exact ⟨complete, Outcome.bind_ok made⟩
    · rintro ⟨-, credentials, found, made⟩
      simp only [found, bind, Except.bind]
      exact made
  · rename_i missing
    constructor
    · intro made
      cases made
    · rintro ⟨complete, -⟩
      exact absurd complete missing

theorem find_of_fixed {record : Fields} (complete : ∀ name ∈ fixedNames, record.has name = true)
    {name : String} {value : Value} (fixed : name ∈ fixedNames)
    (known : record.findOrNull name = value) : record.find? name = some value := by
  rw [Fields.find_of_has (complete name fixed), known]

theorem IsEntryRecord.of_made {record : Fields} {entry : Entry}
    (made : ofRecord record none = .ok entry) :
    ∃ backend, IsEntryRecord backend record ∧
      entry.credentials = Credentials.fromRecord backend record := by
  obtain ⟨fixed, credentials, found, made⟩ := ofRecord_eq_ok_iff.mp made
  obtain ⟨backend, tag, own, rfl⟩ := Credentials.ofFields_eq_ok_iff.mp found
  obtain ⟨size, permission, path, sized, permitted, based, rfl⟩ := ofDraft_eq_ok_iff.mp made
  obtain ⟨sizeKnown, natural⟩ := checkSize_eq_ok_iff.mp sized
  obtain ⟨permissionKnown, inRange⟩ := checkPermission_eq_ok_iff.mp permitted
  obtain ⟨pathKnown, relative⟩ := checkBasePath_eq_ok_iff.mp based
  refine ⟨backend, ?_, rfl⟩
  exact {
    fixed, tag, own
    size := ⟨size, find_of_fixed fixed (by decide) sizeKnown, natural⟩
    permission := ⟨permission, find_of_fixed fixed (by decide) permissionKnown, inRange⟩
    basePath := ⟨path, find_of_fixed fixed (by decide) pathKnown, relative⟩ }

theorem IsEntryRecord.makes {backend : BackendType} {record : Fields}
    (held : IsEntryRecord backend record) : ∃ entry, ofRecord record none = .ok entry := by
  obtain ⟨size, sizeKnown, natural⟩ := held.size
  obtain ⟨permission, permissionKnown, inRange⟩ := held.permission
  obtain ⟨path, pathKnown, relative⟩ := held.basePath
  have checked : ∃ entry,
      ofDraft (draftOf record (Credentials.fromRecord backend record)) = .ok entry :=
    ⟨_, ofDraft_eq_ok_iff.mpr ⟨size, permission, path,
      checkSize_eq_ok_iff.mpr ⟨Fields.findOrNull_of_find sizeKnown, natural⟩,
      checkPermission_eq_ok_iff.mpr ⟨Fields.findOrNull_of_find permissionKnown, inRange⟩,
      checkBasePath_eq_ok_iff.mpr ⟨Fields.findOrNull_of_find pathKnown, relative⟩, rfl⟩⟩
  obtain ⟨entry, checked⟩ := checked
  have found := Credentials.ofFields_eq_ok_iff.mpr ⟨backend, held.tag, held.own, rfl⟩
  exact ⟨entry, ofRecord_eq_ok_iff.mpr ⟨held.fixed, _, found, checked⟩⟩

theorem fixedFields_of_draft {record : Fields} {credentials : Credentials} {entry : Entry}
    (complete : ∀ name ∈ fixedNames, record.has name = true)
    (made : ofDraft (draftOf record credentials) = .ok entry) :
    entry.fixedFields = record.select fixedNames := by
  obtain ⟨size, permission, path, sized, permitted, based, rfl⟩ := ofDraft_eq_ok_iff.mp made
  have sizeKnown := (checkSize_eq_ok_iff.mp sized).1
  have permissionKnown := (checkPermission_eq_ok_iff.mp permitted).1
  have pathKnown := (checkBasePath_eq_ok_iff.mp based).1
  rw [Fields.select_of_has complete, fixedFields, ← sizeKnown, ← permissionKnown, ← pathKnown]
  rfl

theorem record_of_made {record : Fields} {entry : Entry} (made : ofRecord record none = .ok entry) :
    ∃ backend, entry.credentials.backend? = some backend ∧
      entry.record = record.select (schemaNames backend) := by
  obtain ⟨complete, credentials, found, made⟩ := ofRecord_eq_ok_iff.mp made
  obtain ⟨backend, tag, own, rfl⟩ := Credentials.ofFields_eq_ok_iff.mp found
  have given : entry.credentials = Credentials.fromRecord backend record := by
    obtain ⟨size, permission, path, -, -, -, rfl⟩ := ofDraft_eq_ok_iff.mp made
    rfl
  refine ⟨backend, ?_, ?_⟩
  · rw [given, Credentials.backend_fromRecord]
  · rw [Entry.record, given, fixedFields_of_draft complete made,
      Credentials.fields_fromRecord own tag, Fields.select, Fields.select, Fields.select, schemaNames,
      List.filterMap_append]

/-- To records and back, and from records and back. -/
theorem codec_exact :
    (∀ {draft : Draft} {entry : Entry} {backend : BackendType}, ofDraft draft = .ok entry →
      entry.credentials.backend? = some backend → ∃ record schema,
        entry.toRecord = .ok record ∧ recordSchema (.str backend.tag) = .ok schema ∧
          record.map (·.1) = schema.map (·.1) ∧ ofRecord record none = .ok entry) ∧
    ∀ record : Fields,
      ((∃ entry, ofRecord record none = .ok entry) ↔ ∃ backend, IsEntryRecord backend record) ∧
      ∀ {entry : Entry}, ofRecord record none = .ok entry → ∃ backend schema,
        entry.credentials.backend? = some backend ∧ recordSchema (.str backend.tag) = .ok schema ∧
          entry.toRecord = .ok (record.select (schema.map (·.1))) := by
  refine ⟨?encoded, fun record => ⟨⟨?made, ?makes⟩, ?decoded⟩⟩
  case encoded =>
    intro draft entry backend checked known
    obtain ⟨schema, schemaKnown, names⟩ := recordSchema_tag backend
    refine ⟨entry.record, schema, toRecord_of_backend known, schemaKnown, ?_, ?_⟩
    · rw [names_record known, names]
    · refine ofRecord_eq_ok_iff.mpr ⟨missingFields_eq_nil_iff.mp entry.missingFields_record, ?_⟩
      refine ⟨entry.credentials, ofFields_record known, ?_⟩
      rw [draftOf_record]
      exact ofDraft_draft checked
  case made =>
    rintro ⟨entry, made⟩
    obtain ⟨backend, held, -⟩ := IsEntryRecord.of_made made
    exact ⟨backend, held⟩
  case makes =>
    rintro ⟨backend, held⟩
    exact held.makes
  case decoded =>
    intro entry made
    obtain ⟨backend, known, same⟩ := record_of_made made
    obtain ⟨schema, schemaKnown, names⟩ := recordSchema_tag backend
    refine ⟨backend, schema, known, schemaKnown, ?_⟩
    rw [names, ← same]
    exact toRecord_of_backend known

def regionless : Entry where
  fileName := .str "x"
  fullPath := .str "s3://bucket/x"
  size := .int 7
  timestamp := .int 0
  owner := .null
  isFolder := .bool false
  basePath := "x"
  permission := .int 0o644
  credentials := .amazonS3 (.str "id") (.str "key") .null (.str "bucket")

/-- Fields out of order and fields that no schema has; a truth value and a binary number. -/
def shuffled : Fields :=
  [("fsUri", .str "file:///"), ("extra", .arr []), ("permission", .float (.ofInt 420)),
    ("fileSize", .bool true), ("basePath", .str "x"), ("owner", .str "alice"),
    ("backendType", .str "local"), ("timeStamp", .null), ("region", .null),
    ("isFolder", .bool false), ("fullPath", .str "/data/x"), ("fileName", .str "x")]

theorem shuffled_isEntryRecord : IsEntryRecord .localFiles shuffled where
  fixed := by decide
  tag := by decide
  own := by decide
  size := ⟨.flag true, by decide, by decide⟩
  permission := ⟨.float (.ofInt 420), by decide, by decide +kernel, by decide +kernel⟩
  basePath := ⟨"x", by decide, by decide⟩

theorem codec_exact_examples :
    (ofDraft regionless.draft = .ok regionless ∧ ∃ record schema,
      regionless.toRecord = .ok record ∧
        recordSchema (.str BackendType.amazonS3.tag) = .ok schema ∧
          record.map (·.1) = schema.map (·.1) ∧ ofRecord record none = .ok regionless) ∧
    ∃ entry, ofRecord shuffled none = .ok entry ∧ ∃ backend schema,
      entry.credentials.backend? = some backend ∧ recordSchema (.str backend.tag) = .ok schema ∧
        entry.toRecord = .ok (shuffled.select (schema.map (·.1))) := by
  have checked : ofDraft regionless.draft = .ok regionless := rfl
  obtain ⟨entry, made⟩ := (codec_exact.2 shuffled).1.mpr ⟨.localFiles, shuffled_isEntryRecord⟩
  exact ⟨⟨checked, codec_exact.1 checked rfl⟩, entry, made, (codec_exact.2 shuffled).2 made⟩

end HarvestPlan.Entry
