import HarvestPlan.Store.Load
import HarvestPlan.Proofs.Entry.Plain

namespace HarvestPlan

open Json (Value Fields IsScalar)

theorem Json.Value.eq_of_sameKey {a b : Value} (text : b.IsOptionalText)
    (same : a.sameKey b = true) : a = b := by
  rcases text with rfl | ⟨s, rfl⟩
  · cases a with
    | null => rfl
    | float x => cases x <;> cases same
    | _ => cases same
  · cases a with
    | str t => rw [eq_of_beq same]
    | float x => cases x <;> cases same
    | _ => cases same

namespace Credentials

def values (credentials : Credentials) : List Value := credentials.fields.map (·.2)

theorem IsTextual.values_text {credentials : Credentials} (textual : credentials.IsTextual) :
    ∀ value ∈ credentials.values, value.IsOptionalText := by
  intro value present
  cases textual with
  | localFiles uri =>
    simp only [values, fields, List.map_cons, List.map_nil, List.mem_cons, List.not_mem_nil,
      or_false] at present
    rcases present with rfl | rfl
    all_goals exact .inr ⟨_, rfl⟩
  | amazonS3 accessKeyId secretKeyId bucketName optional =>
    simp only [values, fields, List.map_cons, List.map_nil, List.mem_cons, List.not_mem_nil,
      or_false] at present
    rcases present with rfl | rfl | rfl | rfl | rfl
    case inr.inr.inr.inl => exact optional
    all_goals exact .inr ⟨_, rfl⟩

theorem IsTextual.eq_of_values {a b : Credentials} (left : a.IsTextual) (right : b.IsTextual)
    (same : a.values = b.values) : a = b := by
  cases left <;> cases right <;> simp_all [values, fields]

end Credentials

namespace SharedCredentials

def IsFaithful (shared : SharedCredentials) : Prop :=
  ∀ known ∈ shared, known.2.IsTextual ∧ known.1 = known.2.values

theorem eq_of_sameValues {left right : List Value}
    (texts : ∀ value ∈ right, value.IsOptionalText) (same : sameValues left right = true) :
    left = right := by
  induction left generalizing right with
  | nil =>
    cases right with
    | nil => rfl
    | cons b rest => cases same
  | cons a rest ih =>
    cases right with
    | nil => cases same
    | cons b others =>
      rw [sameValues, Bool.and_eq_true] at same
      have first : a = b := Value.eq_of_sameKey (texts b (by simp)) same.1
      have later : rest = others := ih (fun value present => texts value (by simp [present])) same.2
      rw [first, later]

theorem valuesOf_record {entry : Entry} (textual : entry.credentials.IsTextual) :
    valuesOf entry.record = .ok entry.credentials.values := by
  unfold Entry.record
  generalize entry.credentials = credentials at textual
  cases textual with
  | localFiles uri => rfl
  | amazonS3 accessKeyId secretKeyId bucketName optional =>
    rcases optional with rfl | ⟨region, rfl⟩ <;> rfl

theorem ofRecord_record {shared : SharedCredentials} (faithful : shared.IsFaithful) {entry : Entry}
    (plain : entry.IsPlain) :
    ∃ grown, IsFaithful grown ∧ shared.ofRecord entry.record = .ok (entry.credentials, grown) := by
  unfold ofRecord
  rw [valuesOf_record plain.credentials]
  cases known : shared.known? entry.credentials.values with
  | none =>
    refine ⟨shared ++ [(entry.credentials.values, entry.credentials)], ?_, ?_⟩
    · intro pair present
      rcases List.mem_append.mp present with present | present
      · exact faithful pair present
      · rw [List.mem_singleton.mp present]
        exact ⟨plain.credentials, rfl⟩
    · simp only [bind, Except.bind, known, plain.ofFields]
      rfl
  | some credentials =>
    refine ⟨shared, faithful, ?_⟩
    obtain ⟨pair, found, rfl⟩ := Option.map_eq_some_iff.mp known
    obtain ⟨textual, own⟩ := faithful pair (List.mem_of_find?_eq_some found)
    have alike := List.find?_some found
    have same : pair.2 = entry.credentials := by
      refine textual.eq_of_values plain.credentials (own.symm.trans ?_)
      exact eq_of_sameValues plain.credentials.values_text alike
    simp only [bind, Except.bind, known, same]
    rfl

end SharedCredentials

namespace Store

theorem rebuild_record {shared : SharedCredentials} (faithful : shared.IsFaithful) {entry : Entry}
    (plain : entry.IsPlain) :
    ∃ grown, SharedCredentials.IsFaithful grown ∧
      rebuild shared entry.record = .ok (.entry entry, grown) := by
  obtain ⟨grown, stillFaithful, found⟩ := SharedCredentials.ofRecord_record faithful plain
  refine ⟨grown, stillFaithful, ?_⟩
  rw [rebuild, found]
  simp only [Entry.ofRecord_record plain.checked]

end Store
end HarvestPlan
