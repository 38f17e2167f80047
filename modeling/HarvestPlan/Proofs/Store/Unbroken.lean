import Mathlib.Algebra.Order.Ring.Int
import HarvestPlan.Proofs.Entry.Checked
import HarvestPlan.Proofs.Entry.Collected
import HarvestPlan.Proofs.Entry.Fields
import HarvestPlan.Proofs.Number.Within
import HarvestPlan.Proofs.Store.Records

namespace HarvestPlan

open Json (Value Fields)

theorem Credentials.ofFields_collects (record : Fields) : Collects (ofFields record) := by
  unfold ofFields
  split
  · refine (backendOfTag_collects _).bind fun backend _ => ?_
    split
    · exact .ok _
    · exact .error rfl
  · exact .error rfl

namespace SharedCredentials

theorem valuesOf_collects (record : Fields) : Collects (valuesOf record) := by
  unfold valuesOf credentialSchema
  refine .bind (.bind (backendOfTag_collects _) fun backend _ => .ok _) fun schema _ => ?_
  simp only
  split
  · exact .error rfl
  · exact .ok _

theorem ofRecord_collects (shared : SharedCredentials) (record : Fields) :
    Collects (shared.ofRecord record) := by
  unfold ofRecord
  refine (valuesOf_collects record).bind fun values _ => ?_
  split
  · exact .ok _
  · exact (Credentials.ofFields_collects record).bind fun credentials _ => .ok _

end SharedCredentials

def Json.Fields.hasTextPath (record : Fields) : Bool :=
  (record.find? "basePath").all fun value => value.text?.isSome

def Json.Fields.hasFloatSize (record : Fields) : Bool :=
  match record.findOrNull "fileSize" with
  | .float _ => true
  | _ => false

theorem Json.Value.eq_text {value : Value} (text : value.text?.isSome = true) :
    ∃ s, value = .str s := by
  cases value with
  | str s => exact ⟨s, rfl⟩
  | _ => cases text

namespace Entry

theorem checkSize_collects (fullPath size : Value) : Collects (checkSize fullPath size) := by
  unfold checkSize
  split
  · exact .error rfl
  · split
    · exact .error rfl
    · exact .ok _

theorem checkPermission_collects (permission : Value) : Collects (checkPermission permission) := by
  unfold checkPermission
  split
  · exact .error rfl
  · split
    · exact .ok _
    · exact .error rfl

theorem checkBasePath_collects (path : String) : Collects (checkBasePath (.str path)) := by
  simp only [checkBasePath]
  split
  · exact .error rfl
  · exact .ok _

theorem ofRecord_collects {record : Fields} (textual : record.hasTextPath = true)
    (credentials : Credentials) : Collects (ofRecord record (some credentials)) := by
  unfold ofRecord
  split
  · rename_i complete
    have present : record.has "basePath" = true := by
      have all := List.filter_eq_nil_iff.mp complete "basePath" (by decide)
      simpa using all
    rw [Fields.has_eq_isSome] at present
    obtain ⟨value, found⟩ := Option.isSome_iff_exists.mp present
    have text : value.text?.isSome = true := by
      rw [Fields.hasTextPath, found] at textual
      exact textual
    obtain ⟨path, rfl⟩ := Value.eq_text text
    have basePath : (draftOf record credentials).basePath = .str path :=
      Fields.findOrNull_of_find found
    refine .bind (.ok _) fun given same => ?_
    cases same
    refine (checkSize_collects _ _).bind fun size _ => ?_
    refine (checkPermission_collects _).bind fun permission _ => ?_
    rw [basePath]
    exact (checkBasePath_collects path).bind fun _ _ => .ok _
  · exact .error rfl

end Entry

theorem EntryFault.eq_notAText {fault : EntryFault} (uncollected : fault.isCollected = false) :
    fault = .notAText := by
  cases fault with
  | notAText => rfl
  | _ => cases uncollected

namespace Store

def pathOf (record : Fields) : String :=
  match record.findOrNull "fullPath" with
  | .str path => path
  | _ => ""

def placeholder (record : Fields) (fault : EntryFault) : Member :=
  .unreadable (.str (pathOf record)) (.str fault.message)

/-- What a record may become: an entry with its values, or a stand-in that tells what is wrong with its
    credentials or its values. -/
inductive Rebuilds (record : Fields) : Member → Prop
  | entry {credentials : Credentials} {entry : Entry}
      (made : Entry.ofRecord record (some credentials) = .ok entry) : Rebuilds record (.entry entry)
  | unfound {shared : SharedCredentials} {fault : EntryFault}
      (unfound : shared.ofRecord record = .error fault) : Rebuilds record (placeholder record fault)
  | faulty {credentials : Credentials} {fault : EntryFault}
      (failed : Entry.ofRecord record (some credentials) = .error fault) :
      Rebuilds record (placeholder record fault)

theorem standIn_ok (record : Fields) {fault : EntryFault} (collected : fault.isCollected = true) :
    standIn record fault = .ok (placeholder record fault) := by
  unfold standIn placeholder pathOf
  rw [collected, Bool.not_true, if_neg Bool.false_ne_true]
  cases record.findOrNull "fullPath" <;> rfl

def memberWith (record : Fields) (credentials : Credentials) : Except Failure Member :=
  match Entry.ofRecord record (some credentials) with
  | .ok entry => .ok (.entry entry)
  | .error fault => standIn record fault

theorem memberWith_cases (record : Fields) (credentials : Credentials) :
    (∃ member, memberWith record credentials = .ok member ∧ Rebuilds record member) ∨
      (memberWith record credentials = .error (.entry .notAText) ∧ record.hasTextPath = false) := by
  unfold memberWith
  cases made : Entry.ofRecord record (some credentials) with
  | ok entry => exact .inl ⟨.entry entry, rfl, .entry made⟩
  | error fault =>
    cases collected : fault.isCollected with
    | true => exact .inl ⟨_, standIn_ok record collected, .faulty made⟩
    | false =>
      obtain rfl := EntryFault.eq_notAText collected
      refine .inr ⟨rfl, Bool.eq_false_iff.mpr ?_⟩
      intro textual
      have other := Entry.ofRecord_collects textual credentials _ made
      cases other

theorem rebuild_found {shared grown : SharedCredentials} {record : Fields} {credentials : Credentials}
    (found : shared.ofRecord record = .ok (credentials, grown)) :
    rebuild shared record = (·, grown) <$> memberWith record credentials := by
  rw [rebuild, found, memberWith]
  cases made : Entry.ofRecord record (some credentials) with
  | ok entry =>
    simp only [made]
    rfl
  | error fault => simp only [made]

theorem rebuild_unfound {shared : SharedCredentials} {record : Fields} {fault : EntryFault}
    (unfound : shared.ofRecord record = .error fault) :
    rebuild shared record = (·, shared) <$> standIn record fault := by
  rw [rebuild, unfound]

theorem rebuild_cases (shared : SharedCredentials) (record : Fields) :
    (∃ member grown, rebuild shared record = .ok (member, grown) ∧ Rebuilds record member) ∨
      (rebuild shared record = .error (.entry .notAText) ∧ record.hasTextPath = false) := by
  cases found : shared.ofRecord record with
  | error fault =>
    have collected := SharedCredentials.ofRecord_collects shared record fault found
    rw [rebuild_unfound found, standIn_ok record collected]
    exact .inl ⟨_, shared, rfl, .unfound found⟩
  | ok known =>
    obtain ⟨credentials, grown⟩ := known
    rw [rebuild_found found]
    rcases memberWith_cases record credentials with ⟨member, made, rebuilds⟩ | ⟨failed, textless⟩
    · rw [made]
      exact .inl ⟨member, grown, rfl, rebuilds⟩
    · rw [failed]
      exact .inr ⟨rfl, textless⟩

/-- The most that the size of a record can count for as an integer. -/
def integerSize (record : Fields) : Int :=
  max (((record.findOrNull "fileSize").quantity?.bind Quantity.toInt?).getD 0) 0

theorem integerSize_nonneg (record : Fields) : 0 ≤ integerSize record := by
  unfold integerSize
  omega

theorem sum_nonneg (records : List Fields) : 0 ≤ (records.map integerSize).sum := by
  induction records with
  | nil => exact Int.le_refl 0
  | cons record rest ih =>
    have own := integerSize_nonneg record
    rw [List.map_cons, List.sum_cons]
    omega

theorem hasFloatSize_of_quantity {record : Fields} {size : Quantity}
    (known : (record.findOrNull "fileSize").quantity? = some size) (notWhole : size.toInt? = none) :
    record.hasFloatSize = true := by
  unfold Fields.hasFloatSize
  generalize record.findOrNull "fileSize" = value at known ⊢
  cases value with
  | float x => rfl
  | int n =>
    cases known
    cases notWhole
  | bool b =>
    cases known
    cases notWhole
  | _ => cases known

theorem size_of_ofRecord {record : Fields} {credentials : Credentials} {entry : Entry}
    (made : Entry.ofRecord record (some credentials) = .ok entry) :
    (record.findOrNull "fileSize").quantity? = some entry.size ∧
      entry.size.less (.int 0) = false := by
  unfold Entry.ofRecord at made
  split at made
  · obtain ⟨given, same, made⟩ := Outcome.bind_ok made
    obtain ⟨size, permission, basePath, sized, -, -, rfl⟩ := Entry.ofDraft_eq_ok_iff.mp made
    obtain ⟨known, nonneg⟩ := Entry.checkSize_eq_ok_iff.mp sized
    exact ⟨Entry.quantity_eq_some_iff.mpr known, nonneg⟩
  · cases made

theorem Rebuilds.sized {record : Fields} {member : Member} (rebuilds : Rebuilds record member) :
    ∃ size, member.size? = some size ∧ size.IsWithin (integerSize record) ∧
      (size.toInt? = none → record.hasFloatSize = true) := by
  cases rebuilds with
  | @entry credentials entry made =>
    obtain ⟨known, nonneg⟩ := size_of_ofRecord made
    refine ⟨entry.size, rfl, ?_, hasFloatSize_of_quantity known⟩
    intro n integer
    have counted : integerSize record = max n 0 := by
      rw [integerSize, known, Option.bind_some, integer, Option.getD_some]
    have positive : ¬n < 0 := by
      rw [Quantity.less_toInt integer] at nonneg
      exact of_decide_eq_false nonneg
    omega
  | unfound | faulty =>
    refine ⟨.int 0, rfl, ?_, nofun⟩
    intro n zero
    cases zero
    exact ⟨Int.le_refl 0, integerSize_nonneg record⟩

inductive Fills (records : List Fields) (split : Split) (load limit : Int) :
    Except Failure Split → Prop
  | filled {grown : Split} {members : List Member} (rebuilds : records.Forall₂ Rebuilds members)
      (index : grown.index = split.index) (loaded : grown.load = .int (load + records.length))
      (taken : grown.members.toList = split.members.toList ++ members) :
      Fills records split load limit (.ok grown)
  | notAText {record : Fields} (present : record ∈ records) (broken : record.hasTextPath = false) :
      Fills records split load limit (.error (.entry .notAText))
  | beyondRange
      (float : split.totalBytes.toInt? = none ∨ ∃ record ∈ records, record.hasFloatSize = true)
      (great : Binary64.integerLimit ≤ limit + (records.map integerSize).sum) :
      Fills records split load limit (.error .beyondRange)

theorem Fills.stop {record : Fields} {rest : List Fields} {split : Split} {load limit : Int}
    {size : Quantity} (inside : split.totalBytes.IsWithin limit) (nonneg : 0 ≤ limit)
    (within : size.IsWithin (integerSize record))
    (float : size.toInt? = none → record.hasFloatSize = true)
    (absent : split.totalBytes.add? size = none) :
    Fills (record :: rest) split load limit (.error .beyondRange) := by
  have own := integerSize_nonneg record
  have later := sum_nonneg rest
  obtain ⟨notWhole, great⟩ := inside.add_none within nonneg own absent
  refine .beyondRange ?_ ?_
  · rcases notWhole with total | size
    · exact .inl total
    · exact .inr ⟨record, List.mem_cons_self, float size⟩
  · rw [List.map_cons, List.sum_cons]
    omega

theorem Fills.cons {record : Fields} {rest : List Fields} {split : Split} {load limit : Int}
    {member : Member} {size total : Quantity} {outcome : Except Failure Split}
    (rebuilds : Rebuilds record member) (float : size.toInt? = none → record.hasFloatSize = true)
    (summed : split.totalBytes.add? size = some total)
    (others : Fills rest (split.filled [member] load total) (load + 1)
      (limit + integerSize record) outcome) :
    Fills (record :: rest) split load limit outcome := by
  cases others with
  | filled members index loaded taken =>
    refine .filled (.cons rebuilds members) index ?_ ?_
    · rw [loaded, List.length_cons]
      congr 1
      omega
    · rw [taken]
      simp [Split.filled]
  | notAText present broken => exact .notAText (List.mem_cons_of_mem _ present) broken
  | beyondRange floats great =>
    refine .beyondRange ?_ ?_
    · rcases floats with notWhole | ⟨other, present, floats⟩
      · have parts : split.totalBytes.toInt? = none ∨ size.toInt? = none := by
          apply Quantity.notWhole_of_add
          intro sum added
          rw [summed] at added
          cases added
          exact notWhole
        rcases parts with before | notWhole
        · exact .inl before
        · exact .inr ⟨record, List.mem_cons_self, float notWhole⟩
      · exact .inr ⟨other, List.mem_cons_of_mem _ present, floats⟩
    · rw [List.map_cons, List.sum_cons]
      omega

theorem fill_cases {split : Split} {load limit : Int} (opened : split.finalized = false)
    (counted : split.load = .int load) (inside : split.totalBytes.IsWithin limit)
    (nonneg : 0 ≤ limit) (shared : SharedCredentials) (records : List Fields) :
    Fills records split load limit (fill shared split records) := by
  -- By induction on the records: the limit grows with each size, and so does all that the total can be.
  induction records generalizing split load limit shared with
  | nil => exact .filled .nil rfl (by simpa using counted) (by simp)
  | cons record rest ih =>
    rcases rebuild_cases shared record with ⟨member, grown, here, rebuilds⟩ | ⟨failed, broken⟩
    case inr =>
      have ended : fill shared split (record :: rest) = .error (.entry .notAText) := by
        rw [fill, failed]
        rfl
      rw [ended]
      exact .notAText List.mem_cons_self broken
    case inl =>
      obtain ⟨size, weighs, within, float⟩ := rebuilds.sized
      have own := integerSize_nonneg record
      cases summed : split.totalBytes.add? size with
      | none =>
        have ended : fill shared split (record :: rest) = .error .beyondRange := by
          simp [fill, here, Split.added, Split.add, opened, counted, Split.nextLoad, weighs, summed,
            bind, Except.bind]
        rw [ended]
        exact .stop inside nonneg within float summed
      | some total =>
        have step := Split.added_filled opened counted weighs summed
        have ended : fill shared split (record :: rest) =
            fill grown (split.filled [member] load total) rest := by
          simp only [fill, here, step, bind, Except.bind]
        have others := @ih (split.filled [member] load total) _ _ opened rfl
          (inside.add within summed) (by omega) grown
        rw [ended]
        exact others.cons rebuilds float summed

structure IsLoadOf (records : List Fields) (index : Value) (split : Split) : Prop where
  index : split.index = index
  finalized : split.finalized = true
  load : split.load = .int records.length
  size : split.size = records.length
  members : records.Forall₂ Rebuilds split.members.toList

/-- Base paths are texts, and the sizes are all integers or stay in the range of binary numbers
    together. -/
structure AreSound (records : List Fields) : Prop where
  textual : ∀ record ∈ records, record.hasTextPath = true
  summable : (∀ record ∈ records, record.hasFloatSize = false) ∨
    (records.map integerSize).sum < Binary64.integerLimit

theorem fill_empty_cases (index : Value) (records : List Fields) :
    Fills records (.empty index) 0 0 (fill [] (.empty index) records) := by
  have start : (Quantity.int 0).IsWithin 0 := by
    intro n zero
    cases zero
    exact ⟨Int.le_refl 0, Int.le_refl 0⟩
  exact fill_cases rfl rfl start (Int.le_refl 0) [] records

theorem fill_error {index : Value} {records : List Fields} {failure : Failure}
    (failed : fill [] (.empty index) records = .error failure) :
    (failure = .entry .notAText ∧ ∃ record ∈ records, record.hasTextPath = false) ∨
      (failure = .beyondRange ∧ (∃ record ∈ records, record.hasFloatSize = true) ∧
        Binary64.integerLimit ≤ (records.map integerSize).sum) := by
  have fills := fill_empty_cases index records
  rw [failed] at fills
  cases fills with
  | @notAText record present textless => exact .inl ⟨rfl, record, present, textless⟩
  | beyondRange float great =>
    rcases float with notWhole | float
    · cases notWhole
    · exact .inr ⟨rfl, float, by omega⟩

theorem AreSound.exists_fill {records : List Fields} (sound : AreSound records) (index : Value) :
    ∃ grown, fill [] (.empty index) records = .ok grown := by
  cases done : fill [] (.empty index) records with
  | ok grown => exact ⟨grown, rfl⟩
  | error failure =>
    exfalso
    rcases fill_error done with ⟨-, record, present, broken⟩ | ⟨-, ⟨record, present, float⟩, great⟩
    · rw [sound.textual record present] at broken
      cases broken
    · rcases sound.summable with noFloat | small
      · rw [noFloat record present] at float
        cases float
      · omega

theorem AreSound.filled {records : List Fields} (sound : AreSound records) (index : Value) :
    ∃ grown, fill [] (.empty index) records = .ok grown ∧
      IsLoadOf records index grown.finalize := by
  obtain ⟨grown, done⟩ := sound.exists_fill index
  have fills := fill_empty_cases index records
  rw [done] at fills
  cases fills with
  | @filled _ members rebuilds index_eq loaded taken =>
    have members_eq : grown.members.toList = members := by
      rw [taken]
      rfl
    refine ⟨grown, done, ?_⟩
    constructor
    case index => exact index_eq
    case finalized => rfl
    case load => simpa [Split.finalize] using loaded
    case size =>
      have count : grown.members.toList.length = records.length := by
        rw [members_eq, rebuilds.length_eq]
      simpa [Split.finalize, Split.size] using count
    case members =>
      change records.Forall₂ Rebuilds grown.members.toList
      rw [members_eq]
      exact rebuilds

/-- A split is loaded with a member for each of its records, whatever else the records hold. -/
theorem split_unbroken {store : Store} {index : Nat} {records : List Fields}
    (held : store.StoresRecords index records) (sound : AreSound records) :
    ∃ loaded, store.split (.int index) = .ok loaded ∧ IsLoadOf records (.int index) loaded := by
  obtain ⟨grown, done, load⟩ := sound.filled (.int index)
  exact ⟨grown.finalize, held.split_of_fill done, load⟩

def sampleRecord : Fields :=
  [("fileName", .str "x"), ("fullPath", .str "/data/x"), ("fileSize", .int 1), ("timeStamp", .int 0),
    ("owner", .str "alice"), ("isFolder", .bool false), ("basePath", .str "x"),
    ("permission", .int 0o644), ("backendType", .str "local"), ("fsUri", .str "file:///")]

def badRecords : List Fields :=
  [[("fsUri", .null)], sampleRecord.put "backendType" (.arr [.null]),
    sampleRecord.put "backendType" (.str "ftp"), sampleRecord.put "fileSize" (.str "1"),
    sampleRecord.put "fileSize" (.int (-1)), sampleRecord.put "fileSize" (.float (.ofInt 2)),
    sampleRecord.put "permission" .null, sampleRecord.put "basePath" (.str "/x"), sampleRecord]

theorem badRecords_sound : AreSound badRecords := by
  constructor
  case textual => decide +kernel
  case summable =>
    right
    decide +kernel

theorem split_unbroken_bad_records : (ofRecords [badRecords]).StoresRecords 0 badRecords ∧
    AreSound badRecords ∧ ∃ loaded, (ofRecords [badRecords]).split (.int 0) = .ok loaded ∧
      IsLoadOf badRecords (.int 0) loaded := by
  have held : (ofRecords [badRecords]).StoresRecords 0 badRecords :=
    storesRecords_ofRecords rfl (by decide) (by decide +kernel)
  exact ⟨held, badRecords_sound, split_unbroken held badRecords_sound⟩

def pathless : List Fields := [sampleRecord, sampleRecord.put "basePath" (.int 5)]

def unsummable : List Fields :=
  [sampleRecord.put "fileSize" (.int Binary64.integerLimit),
    sampleRecord.put "fileSize" (.float (.ofSignedRatio 1 2))]

theorem unsummable_stored : (ofRecords [unsummable]).StoresRecords 0 unsummable :=
  @storesRecords_ofRecords [unsummable] 0 unsummable rfl (by decide) (by decide +kernel)

theorem unsummable_ends : fill [] (.empty (.int 0)) unsummable = .error .beyondRange := by
  decide +kernel

/-- A base path that is no text takes its split down, and so do sizes that have no sum. -/
theorem split_broken_by_one_record :
    ((ofRecords [pathless]).StoresRecords 0 pathless ∧
      (ofRecords [pathless]).split (.int 0) = .error (.entry .notAText)) ∧
    (ofRecords [unsummable]).StoresRecords 0 unsummable ∧
      (ofRecords [unsummable]).split (.int 0) = .error .beyondRange := by
  have first : (ofRecords [pathless]).StoresRecords 0 pathless :=
    storesRecords_ofRecords rfl (by decide) (by decide +kernel)
  have broken : fill [] (.empty (.int 0)) pathless = .error (.entry .notAText) := by
    decide +kernel
  have pathSplit : (ofRecords [pathless]).split (.int 0) =
      Split.finalize <$> fill [] (.empty (.int 0)) pathless := first.split_eq
  have sizeSplit : (ofRecords [unsummable]).split (.int 0) =
      Split.finalize <$> fill [] (.empty (.int 0)) unsummable := unsummable_stored.split_eq
  rw [broken] at pathSplit
  rw [unsummable_ends] at sizeSplit
  exact ⟨⟨first, pathSplit⟩, unsummable_stored, sizeSplit⟩

end Store
end HarvestPlan
