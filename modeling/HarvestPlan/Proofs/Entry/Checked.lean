import HarvestPlan.Entry.Record
import HarvestPlan.Proofs.Outcome

namespace HarvestPlan.Entry

open Json (Value)

theorem quantity_eq_some_iff {value : Value} {quantity : Quantity} :
    value.quantity? = some quantity ↔ value = .ofQuantity quantity := by
  cases quantity <;> cases value <;> simp [Value.quantity?, Value.ofQuantity]

def IsPermission (permission : Quantity) : Prop :=
  (Quantity.int 0).atMost permission = true ∧ permission.atMost (.int greatestPermission) = true

theorem checkSize_eq_ok_iff {fullPath value : Value} {size : Quantity} :
    checkSize fullPath value = .ok size ↔
      value = .ofQuantity size ∧ size.less (.int 0) = false := by
  rw [← quantity_eq_some_iff]
  unfold checkSize
  grind

theorem checkPermission_eq_ok_iff {value : Value} {permission : Quantity} :
    checkPermission value = .ok permission ↔
      value = .ofQuantity permission ∧ IsPermission permission := by
  rw [← quantity_eq_some_iff]
  unfold checkPermission IsPermission
  grind

theorem checkBasePath_eq_ok_iff {value : Value} {basePath : String} :
    checkBasePath value = .ok basePath ↔
      value = .str basePath ∧ basePath.toList.head? ≠ some '/' := by
  unfold checkBasePath
  grind

theorem ofDraft_eq_ok_iff {draft : Draft} {entry : Entry} :
    ofDraft draft = .ok entry ↔ ∃ size permission basePath,
      checkSize draft.fullPath draft.size = .ok size ∧
      checkPermission draft.permission = .ok permission ∧
      checkBasePath draft.basePath = .ok basePath ∧
      entry = ⟨draft.fileName, draft.fullPath, size, draft.timestamp, draft.owner, draft.isFolder,
        basePath, permission, draft.credentials⟩ := by
  constructor
  · intro made
    obtain ⟨size, sized, made⟩ := Outcome.bind_ok made
    obtain ⟨permission, permitted, made⟩ := Outcome.bind_ok made
    obtain ⟨basePath, based, made⟩ := Outcome.bind_ok made
    cases made
    exact ⟨size, permission, basePath, sized, permitted, based, rfl⟩
  · rintro ⟨size, permission, basePath, sized, permitted, based, rfl⟩
    rw [ofDraft, sized, permitted, based]
    rfl

theorem isPermission_int {permission : Int} (least : 0 ≤ permission)
    (most : permission ≤ greatestPermission) : IsPermission (.int permission) := by
  simp only [IsPermission, Quantity.atMost, Quantity.less, Quantity.same, Quantity.extent,
    Extent.less, Extent.same, Bool.or_eq_true, decide_eq_true_eq]
  omega

def draft (entry : Entry) : Draft where
  fileName := entry.fileName
  fullPath := entry.fullPath
  size := .ofQuantity entry.size
  timestamp := entry.timestamp
  owner := entry.owner
  isFolder := entry.isFolder
  basePath := .str entry.basePath
  permission := .ofQuantity entry.permission
  credentials := entry.credentials

theorem ofDraft_draft {draft : Draft} {entry : Entry} (made : ofDraft draft = .ok entry) :
    ofDraft entry.draft = .ok entry := by
  obtain ⟨size, permission, basePath, sized, permitted, based, rfl⟩ := ofDraft_eq_ok_iff.mp made
  rw [checkSize_eq_ok_iff] at sized
  rw [checkPermission_eq_ok_iff] at permitted
  rw [checkBasePath_eq_ok_iff] at based
  exact ofDraft_eq_ok_iff.mpr ⟨size, permission, basePath, checkSize_eq_ok_iff.mpr ⟨rfl, sized.2⟩,
    checkPermission_eq_ok_iff.mpr ⟨rfl, permitted.2⟩, checkBasePath_eq_ok_iff.mpr ⟨rfl, based.2⟩, rfl⟩

end HarvestPlan.Entry
