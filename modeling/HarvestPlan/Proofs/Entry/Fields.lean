import HarvestPlan.Credentials
import HarvestPlan.Proofs.Outcome

namespace HarvestPlan

open Json (Value Fields)

namespace Json.Fields

theorem has_eq_isSome (fields : Fields) (name : String) :
    fields.has name = (fields.find? name).isSome := by
  induction fields with
  | nil => rfl
  | cons field rest ih =>
    obtain ⟨key, value⟩ := field
    have here : Fields.has ((key, value) :: rest) name = (key == name || Fields.has rest name) :=
      List.any_cons
    rw [here, ih, Fields.find?, Fields.find?, List.lookup_cons, Bool.beq_comm]
    cases name == key <;> rfl

theorem find_of_findOrNull {fields : Fields} {name : String} {value : Value}
    (known : fields.findOrNull name = value) (notNull : value ≠ .null) :
    fields.find? name = some value := by
  unfold Fields.findOrNull at known
  cases found : fields.find? name with
  | none =>
    rw [found] at known
    exact absurd known.symm notNull
  | some other =>
    rw [found] at known
    rw [← known]
    rfl

theorem findOrNull_of_find {fields : Fields} {name : String} {value : Value}
    (found : fields.find? name = some value) : fields.findOrNull name = value := by
  rw [Fields.findOrNull, found, Option.getD_some]

theorem find_of_has {fields : Fields} {name : String} (present : fields.has name = true) :
    fields.find? name = some (fields.findOrNull name) := by
  rw [has_eq_isSome] at present
  obtain ⟨value, found⟩ := Option.isSome_iff_exists.mp present
  rw [Fields.findOrNull, found, Option.getD_some]

def select (fields : Fields) (names : List String) : Fields :=
  names.filterMap fun name => (fields.find? name).map (name, ·)

theorem select_of_has {fields : Fields} {names : List String}
    (complete : ∀ name ∈ names, fields.has name = true) :
    fields.select names = names.map fun name => (name, fields.findOrNull name) := by
  induction names with
  | nil => rfl
  | cons name rest ih =>
    have later := ih fun other present => complete other (List.mem_cons_of_mem _ present)
    rw [select] at later
    rw [select, List.filterMap_cons, find_of_has (complete name List.mem_cons_self), Option.map_some,
      later, List.map_cons]

end Json.Fields

namespace BackendType

theorem tag_of_ofTag {s : String} {backend : BackendType}
    (known : ofTag? s = some backend) : s = backend.tag := by
  have same := List.find?_some known
  exact (eq_of_beq same).symm

theorem eq_of_tag {a b : BackendType} (same : a.tag = b.tag) : a = b := by
  cases a <;> cases b <;> first | rfl | exact absurd same (by decide)

def names (backend : BackendType) : List String := backendTypeField :: backend.fieldNames

end BackendType

theorem backendOfTag_ok {tag : Value} {backend : BackendType}
    (known : backendOfTag tag = .ok backend) : tag = .str backend.tag := by
  cases tag with
  | str s =>
    unfold backendOfTag at known
    simp only [Value.isKey, Bool.not_true, Bool.false_eq_true, if_false] at known
    cases found : BackendType.ofTag? s with
    | none =>
      rw [found] at known
      cases known
    | some other =>
      rw [found] at known
      cases known
      rw [BackendType.tag_of_ofTag found]
  | _ => cases known

theorem backendOfTag_tag (backend : BackendType) :
    backendOfTag (.str backend.tag) = .ok backend := by
  cases backend <;> rfl

namespace Credentials

def backend? : Credentials → Option BackendType
  | localFiles _ => some .localFiles
  | amazonS3 .. => some .amazonS3
  | foreign .. | tagless _ => none

def fields : Credentials → Fields
  | localFiles uri => [(backendTypeField, .str "local"), ("fsUri", uri)]
  | amazonS3 accessKeyId secretKeyId region bucketName =>
    [(backendTypeField, .str "amazons3"), ("accessKeyId", accessKeyId),
      ("secretKeyId", secretKeyId), ("region", region), ("bucketName", bucketName)]
  | foreign .. | tagless _ => []

variable {credentials : Credentials} {backend : BackendType}

theorem toFields_of_backend (known : credentials.backend? = some backend) :
    credentials.toFields = .ok credentials.fields := by
  cases credentials <;> cases known <;> rfl

theorem names_of_backend (known : credentials.backend? = some backend) :
    credentials.fields.map (·.1) = backend.names := by
  cases credentials <;> cases known <;> rfl

theorem backend_fromRecord (backend : BackendType) (record : Fields) :
    (fromRecord backend record).backend? = some backend := by
  cases backend <;> rfl

theorem ofFields_eq_ok_iff {record : Fields} :
    ofFields record = .ok credentials ↔ ∃ backend : BackendType,
      record.find? backendTypeField = some (.str backend.tag) ∧
        (∀ name ∈ backend.fieldNames, record.has name = true) ∧
          credentials = fromRecord backend record := by
  unfold ofFields
  constructor
  · intro made
    split at made
    · rename_i tag found
      obtain ⟨backend, known, made⟩ := Outcome.bind_ok made
      obtain rfl := backendOfTag_ok known
      refine ⟨backend, found, ?_⟩
      split at made
      · rename_i complete
        cases made
        exact ⟨by simpa [List.filter_eq_nil_iff] using complete, rfl⟩
      · cases made
    · cases made
  · rintro ⟨backend, found, complete, rfl⟩
    have nothing : backend.fieldNames.filter (fun name => !record.has name) = [] := by
      simpa [List.filter_eq_nil_iff] using complete
    simp only [found, backendOfTag_tag, nothing, bind, Except.bind]
    rfl

theorem fields_fromRecord {record : Fields} (complete : ∀ name ∈ backend.fieldNames, record.has name)
    (found : record.find? backendTypeField = some (.str backend.tag)) :
    (fromRecord backend record).fields = record.select backend.names := by
  have tagged : record.has backendTypeField = true := by
    rw [Fields.has_eq_isSome, found]
    rfl
  have tag := Fields.findOrNull_of_find found
  rw [BackendType.names, Fields.select_of_has (List.forall_mem_cons.mpr ⟨tagged, complete⟩),
    List.map_cons, tag]
  cases backend <;> rfl

end Credentials
end HarvestPlan
