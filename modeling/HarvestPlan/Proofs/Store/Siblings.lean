import HarvestPlan.Proofs.Store.Rebuilt
import HarvestPlan.Proofs.Store.Unbroken

namespace HarvestPlan

open Json (Value Fields)

def credentialNames (record : Fields) : List String :=
  match backendOfTag (record.findOrNull backendTypeField) with
  | .ok backend => backend.fieldNames
  | .error _ => []

theorem credentialNames_of_tag {record : Fields} {backend : BackendType}
    (tag : record.find? backendTypeField = some (.str backend.tag)) :
    credentialNames record = backend.fieldNames := by
  rw [credentialNames, Fields.findOrNull, tag, Option.getD_some, backendOfTag_tag]

theorem Credentials.ofFields_congr {a b : Fields} {backend : BackendType}
    (left : a.find? backendTypeField = some (.str backend.tag))
    (right : b.find? backendTypeField = some (.str backend.tag))
    (same : ∀ name ∈ backend.fieldNames, a.find? name = b.find? name) :
    ofFields a = ofFields b := by
  have missing : backend.fieldNames.filter (fun name => !a.has name) =
      backend.fieldNames.filter fun name => !b.has name := by
    apply List.filter_congr
    intro name present
    rw [Fields.has_eq_isSome, Fields.has_eq_isSome, same name present]
  have each : ∀ name ∈ backend.fieldNames, a.findOrNull name = b.findOrNull name := by
    intro name present
    rw [Fields.findOrNull, Fields.findOrNull, same name present]
  have made : fromRecord backend a = fromRecord backend b := by
    cases backend with
    | localFiles =>
      rw [fromRecord, fromRecord, each "fsUri" (by decide)]
    | amazonS3 =>
      rw [fromRecord, fromRecord, each "accessKeyId" (by decide), each "secretKeyId" (by decide),
        each "region" (by decide), each "bucketName" (by decide)]
  simp only [ofFields, left, right, backendOfTag_tag, bind, Except.bind, missing, made]

theorem Credentials.ofFields_complete {record : Fields} {credentials : Credentials}
    (made : ofFields record = .ok credentials) :
    ∀ name ∈ credentialNames record, record.has name = true := by
  obtain ⟨backend, tag, complete, -⟩ := ofFields_eq_ok_iff.mp made
  rw [credentialNames_of_tag tag]
  exact complete

namespace SharedCredentials

theorem valuesOf_ok {record : Fields} {values : List Value} (known : valuesOf record = .ok values) :
    ∃ backend : BackendType, record.find? backendTypeField = some (.str backend.tag) ∧
      values = .str backend.tag :: backend.fieldNames.map record.findOrNull := by
  obtain ⟨schema, schema_eq, known⟩ := Outcome.bind_ok known
  obtain ⟨backend, backend_eq, schema_eq⟩ := Outcome.bind_ok schema_eq
  cases schema_eq
  have tag := backendOfTag_ok backend_eq
  refine ⟨backend, Fields.find_of_findOrNull tag nofun, ?_⟩
  simp only at known
  split at known
  · cases known
  · cases known
    simp [tag, Function.comp_def]

/-- The earlier record has credentials that the other one is given in place of its own, although
    some of their fields differ. -/
def areConfusable (earlier record : Fields) : Bool :=
  match Credentials.ofFields earlier, valuesOf earlier, valuesOf record with
  | .ok _, .ok values, .ok own => sameValues values own &&
    (credentialNames record).any fun name => earlier.find? name ≠ record.find? name
  | _, _, _ => false

theorem backend_of_sameValues {earlier record : Fields} {values own : List Value}
    (known : valuesOf earlier = .ok values) (asked : valuesOf record = .ok own)
    (same : sameValues values own = true) :
    ∃ backend : BackendType, earlier.find? backendTypeField = some (.str backend.tag) ∧
      record.find? backendTypeField = some (.str backend.tag) ∧
      sameValues (backend.fieldNames.map earlier.findOrNull)
        (backend.fieldNames.map record.findOrNull) = true := by
  obtain ⟨backend, tag, rfl⟩ := valuesOf_ok known
  obtain ⟨other, tag', rfl⟩ := valuesOf_ok asked
  rw [sameValues, Bool.and_eq_true] at same
  obtain rfl := BackendType.eq_of_tag (eq_of_beq same.1)
  exact ⟨backend, tag, tag', same.2⟩

theorem ofFields_eq_of_sameValues {earlier record : Fields} {values own : List Value}
    {credentials : Credentials} (lent : Credentials.ofFields earlier = .ok credentials)
    (known : valuesOf earlier = .ok values) (asked : valuesOf record = .ok own)
    (same : sameValues values own = true) (clear : areConfusable earlier record = false) :
    Credentials.ofFields record = .ok credentials := by
  obtain ⟨backend, tag, tag', -⟩ := backend_of_sameValues known asked same
  rw [areConfusable, lent, known, asked] at clear
  simp only [same, credentialNames_of_tag tag', Bool.true_and] at clear
  have fields : ∀ name ∈ backend.fieldNames, record.find? name = earlier.find? name := by
    intro name present
    have alike := List.any_eq_false.mp clear name present
    rw [decide_eq_true_eq, not_not] at alike
    exact alike.symm
  rw [← lent]
  exact Credentials.ofFields_congr tag' tag fields

def AreLentBy (records : List Fields) (shared : SharedCredentials) : Prop :=
  ∀ known ∈ shared, ∃ record ∈ records, valuesOf record = .ok known.1 ∧
    Credentials.ofFields record = .ok known.2

theorem AreLentBy.append {records : List Fields} {shared : SharedCredentials}
    (lent : AreLentBy records shared) (record : Fields) : AreLentBy (records ++ [record]) shared := by
  intro pair present
  obtain ⟨earlier, among, known⟩ := lent pair present
  exact ⟨earlier, List.mem_append_left _ among, known⟩

def ownCredentials (record : Fields) : Except EntryFault Credentials := do
  let _ ← valuesOf record
  Credentials.ofFields record

theorem ofRecord_lent {records : List Fields} {shared grown : SharedCredentials} {record : Fields}
    {credentials : Credentials} (lent : AreLentBy records shared)
    (found : shared.ofRecord record = .ok (credentials, grown)) :
    AreLentBy (records ++ [record]) grown := by
  have before := lent.append record
  obtain ⟨own, asked, found⟩ := Outcome.bind_ok found
  split at found
  · cases found
    exact before
  · obtain ⟨credentials, made, found⟩ := Outcome.bind_ok found
    cases found
    intro pair present
    rcases List.mem_append.mp present with present | present
    · exact before pair present
    · rw [List.mem_singleton.mp present]
      exact ⟨record, by simp, asked, made⟩

theorem ofRecord_own {records : List Fields} {shared : SharedCredentials} {record : Fields}
    (lent : AreLentBy records shared)
    (clear : ∀ earlier ∈ records, areConfusable earlier record = false) :
    (·.1) <$> shared.ofRecord record = ownCredentials record := by
  unfold ofRecord ownCredentials
  cases asked : valuesOf record with
  | error fault => rfl
  | ok own =>
    cases known : shared.known? own with
    | none =>
      simp only [bind, Except.bind, known]
      cases Credentials.ofFields record <;> rfl
    | some credentials =>
      obtain ⟨pair, found, rfl⟩ := Option.map_eq_some_iff.mp known
      obtain ⟨earlier, present, values, owned⟩ := lent pair (List.mem_of_find?_eq_some found)
      have same := List.find?_some found
      have alike := ofFields_eq_of_sameValues owned values asked same (clear earlier present)
      simp only [bind, Except.bind, known, alike]
      rfl

end SharedCredentials

namespace Store

open SharedCredentials

def memberOf (record : Fields) : Except Failure Member :=
  match ownCredentials record with
  | .error fault => standIn record fault
  | .ok credentials => memberWith record credentials

theorem rebuild_own {records : List Fields} {shared grown : SharedCredentials} {record : Fields}
    {member : Member} (lent : AreLentBy records shared)
    (clear : ∀ earlier ∈ records, areConfusable earlier record = false)
    (rebuilt : rebuild shared record = .ok (member, grown)) : memberOf record = .ok member := by
  have own := ofRecord_own lent clear
  cases found : shared.ofRecord record with
  | error fault =>
    rw [found] at own
    rw [rebuild_unfound found] at rebuilt
    obtain ⟨stand, stands, same⟩ := Outcome.map_ok rebuilt
    cases same
    rw [memberOf, ← own]
    exact stands
  | ok known =>
    obtain ⟨credentials, after⟩ := known
    rw [found] at own
    rw [rebuild_found found] at rebuilt
    obtain ⟨made, made_eq, same⟩ := Outcome.map_ok rebuilt
    cases same
    rw [memberOf, ← own]
    exact made_eq

theorem rebuild_lent {records : List Fields} {shared grown : SharedCredentials} {record : Fields}
    {member : Member} (lent : AreLentBy records shared)
    (rebuilt : rebuild shared record = .ok (member, grown)) :
    AreLentBy (records ++ [record]) grown := by
  cases found : shared.ofRecord record with
  | error fault =>
    rw [rebuild_unfound found] at rebuilt
    obtain ⟨stand, -, same⟩ := Outcome.map_ok rebuilt
    cases same
    exact lent.append record
  | ok known =>
    obtain ⟨credentials, after⟩ := known
    rw [rebuild_found found] at rebuilt
    obtain ⟨made, -, same⟩ := Outcome.map_ok rebuilt
    cases same
    exact ofRecord_lent lent found

/-- A record becomes the same whatever stands beside it, but for records before it whose credentials
    it is given. -/
theorem rebuildAll_own {earlier records : List Fields} {shared : SharedCredentials}
    {members : List Member} (lent : AreLentBy earlier shared)
    (rebuilt : rebuildAll shared records = .ok members) {p : Nat} {record : Fields}
    (present : records[p]? = some record)
    (clear : ∀ other ∈ earlier ++ records.take p, areConfusable other record = false) :
    ∃ member, members[p]? = some member ∧ memberOf record = .ok member := by
  -- Each record rebuilt joins the earlier ones, from which all that is shared has been read.
  induction records generalizing earlier shared members p with
  | nil => simp at present
  | cons head rest ih =>
    obtain ⟨member, grown, others, here, later, rfl⟩ := rebuildAll_cons rebuilt
    cases p with
    | zero =>
      cases present
      exact ⟨member, rfl, rebuild_own lent (by simpa using clear) here⟩
    | succ p =>
      have further : rest[p]? = some record := present
      have clear' : ∀ other ∈ (earlier ++ [head]) ++ rest.take p,
          areConfusable other record = false := by
        simpa using clear
      exact ih (rebuild_lent lent here) later further clear'

def HasTextCredentials (record : Fields) : Prop :=
  ∀ name ∈ credentialNames record, ∃ value, record.find? name = some value ∧ value.IsOptionalText

theorem HasTextCredentials.find_eq {earlier record : Fields} {values own : List Value}
    {credentials : Credentials} (textual : HasTextCredentials record)
    (lent : Credentials.ofFields earlier = .ok credentials)
    (known : valuesOf earlier = .ok values) (asked : valuesOf record = .ok own)
    (same : sameValues values own = true) :
    ∀ name ∈ credentialNames record, earlier.find? name = record.find? name := by
  obtain ⟨backend, tag, tag', alike⟩ := backend_of_sameValues known asked same
  have complete := Credentials.ofFields_complete lent
  have names := credentialNames_of_tag tag'
  rw [credentialNames_of_tag tag] at complete
  have texts : ∀ value ∈ backend.fieldNames.map record.findOrNull, value.IsOptionalText := by
    intro value among
    obtain ⟨name, present, rfl⟩ := List.mem_map.mp among
    obtain ⟨value, found, text⟩ := textual name (names ▸ present)
    rw [Fields.findOrNull, found]
    exact text
  have equal := List.map_inj_left.mp (eq_of_sameValues texts alike)
  intro name present
  obtain ⟨own, found, -⟩ := textual name present
  rw [names] at present
  -- The field is there in both, so a null does not stand for an absent field.
  have there := complete name present
  rw [Fields.has_eq_isSome] at there
  obtain ⟨value, found'⟩ := Option.isSome_iff_exists.mp there
  have values := equal name present
  rw [Fields.findOrNull, Fields.findOrNull, found, found', Option.getD_some, Option.getD_some]
    at values
  rw [found, found', values]

theorem HasTextCredentials.clear {record : Fields} (textual : HasTextCredentials record)
    (earlier : Fields) : areConfusable earlier record = false := by
  unfold areConfusable
  split
  · rename_i credentials values own lent known asked
    cases same : sameValues values own with
    | false => rfl
    | true =>
      rw [Bool.true_and, List.any_eq_false]
      intro name present
      have equal := textual.find_eq lent known asked same name present
      simp [equal]
  · rfl

def lacksCredentials (record : Fields) : Bool :=
  (credentialNames record).any fun name => !record.has name

theorem ownCredentials_collects (record : Fields) : Collects (ownCredentials record) :=
  (valuesOf_collects record).bind fun _ _ => Credentials.ofFields_collects record

theorem memberOf_unfound {record : Fields} {fault : EntryFault}
    (unfound : ownCredentials record = .error fault) :
    memberOf record = .ok (placeholder record fault) := by
  rw [memberOf, unfound]
  exact standIn_ok record (ownCredentials_collects record fault unfound)

theorem memberOf_lacking {record : Fields} (lacks : lacksCredentials record = true) :
    ∃ fault, memberOf record = .ok (placeholder record fault) := by
  cases own : ownCredentials record with
  | error fault => exact ⟨fault, memberOf_unfound own⟩
  | ok credentials =>
    obtain ⟨values, -, made⟩ := Outcome.bind_ok own
    obtain ⟨name, among, missing⟩ := List.any_eq_true.mp lacks
    rw [Credentials.ofFields_complete made name among] at missing
    cases missing

theorem memberOf_rebuilds {record : Fields} {member : Member} (own : memberOf record = .ok member) :
    Rebuilds record member := by
  cases known : ownCredentials record with
  | error fault =>
    rw [memberOf_unfound known] at own
    cases own
    have nothing : AreLentBy [] [] := nofun
    have alone := @ofRecord_own [] [] record nothing nofun
    rw [known] at alone
    exact .unfound (Outcome.map_error alone)
  | ok credentials =>
    rw [memberOf, known] at own
    change memberWith record credentials = .ok member at own
    rcases memberWith_cases record credentials with ⟨other, made, rebuilds⟩ | ⟨failed, -⟩
    · rw [made] at own
      cases own
      exact rebuilds
    · rw [failed] at own
      cases own

theorem StoresRecords.member_at {store : Store} {index : Nat} {records : List Fields}
    (held : store.StoresRecords index records) {loaded : Split}
    (done : store.split (.int index) = .ok loaded) {p : Nat} {record : Fields}
    (present : records[p]? = some record)
    (clear : ∀ earlier ∈ records.take p, areConfusable earlier record = false) :
    ∃ member, loaded.members[p]? = some member ∧ memberOf record = .ok member := by
  obtain ⟨members, grown, rebuilt, filled, rfl⟩ := (held.split_ok_iff loaded).mp done
  have start : (Split.empty (.int index)).load = .int 0 := rfl
  have taken := (Split.foldlM_ok start filled).2
  have nothing : AreLentBy [] [] := nofun
  obtain ⟨member, found, own⟩ := rebuildAll_own nothing rebuilt present clear
  refine ⟨member, ?_, own⟩
  have kept : grown.members.toList = members := taken
  rw [← kept, Array.getElem?_toList] at found
  exact found

theorem StoresRecords.member_of_text {store : Store} {index : Nat} {records : List Fields}
    (held : store.StoresRecords index records) {loaded : Split}
    (done : store.split (.int index) = .ok loaded) {p : Nat} {record : Fields}
    (present : records[p]? = some record) (textual : HasTextCredentials record) :
    ∃ member, loaded.members[p]? = some member ∧ memberOf record = .ok member :=
  held.member_at done present fun earlier _ => textual.clear earlier

/-- A record becomes the same in two splits, an entry or a stand-in, whatever the other records of the
    splits are. -/
theorem split_independent {store other : Store} {i j : Nat} {records others : List Fields}
    (held : store.StoresRecords i records) (held' : other.StoresRecords j others) {p q : Nat}
    {record : Fields} (present : records[p]? = some record) (present' : others[q]? = some record)
    (clear : ∀ earlier ∈ records.take p, areConfusable earlier record = false)
    (clear' : ∀ earlier ∈ others.take q, areConfusable earlier record = false) :
    (AreSound records → AreSound others →
      ∃ a b, store.split (.int i) = .ok a ∧ other.split (.int j) = .ok b) ∧
    ∀ a b, store.split (.int i) = .ok a → other.split (.int j) = .ok b →
      ∃ member, a.members[p]? = some member ∧ b.members[q]? = some member ∧
        memberOf record = .ok member ∧ Rebuilds record member ∧
        (lacksCredentials record = true → ∃ fault, member = placeholder record fault) := by
  constructor
  · intro sound sound'
    obtain ⟨a, filled⟩ := sound.exists_fill (.int i)
    obtain ⟨b, filled'⟩ := sound'.exists_fill (.int j)
    exact ⟨_, _, held.split_of_fill filled, held'.split_of_fill filled'⟩
  · intro a b loaded loaded'
    obtain ⟨member, here, own⟩ := held.member_at loaded present clear
    obtain ⟨same, there, own'⟩ := held'.member_at loaded' present' clear'
    rw [own] at own'
    cases own'
    refine ⟨member, here, there, own, memberOf_rebuilds own, ?_⟩
    intro lacks
    obtain ⟨fault, unreadable⟩ := memberOf_lacking lacks
    rw [own] at unreadable
    cases unreadable
    exact ⟨fault, rfl⟩

-- A record without its credential field, among others and beside one that has a null there.
def noUri : Fields := sampleRecord.filter fun field => field.1 ≠ "fsUri"

def nullUri : Fields := sampleRecord.put "fsUri" .null

def lacking : List (List Fields) :=
  [[sampleRecord, sampleRecord.put "fsUri" (.str ""), noUri], [noUri, nullUri]]

theorem split_independent_of_complete_records :
    (ofRecords lacking).StoresRecords 0 [sampleRecord, sampleRecord.put "fsUri" (.str ""), noUri] ∧
    (ofRecords lacking).StoresRecords 1 [noUri, nullUri] ∧
    ∃ a b, (ofRecords lacking).split (.int 0) = .ok a ∧ (ofRecords lacking).split (.int 1) = .ok b ∧
      ∃ fault, a.members[2]? = some (placeholder noUri fault) ∧
        b.members[0]? = some (placeholder noUri fault) := by
  have first : (ofRecords lacking).StoresRecords 0
      [sampleRecord, sampleRecord.put "fsUri" (.str ""), noUri] :=
    storesRecords_ofRecords rfl (by decide) (by decide +kernel)
  have second : (ofRecords lacking).StoresRecords 1 [noUri, nullUri] :=
    storesRecords_ofRecords rfl (by decide) (by decide +kernel)
  have independent := @split_independent _ _ 0 1 _ _ first second 2 0 noUri rfl rfl
    (by decide +kernel) (by decide +kernel)
  obtain ⟨loads, same⟩ := independent
  obtain ⟨a, b, loaded, loaded'⟩ := loads ⟨by decide +kernel, .inl (by decide +kernel)⟩
    ⟨by decide +kernel, .inl (by decide +kernel)⟩
  obtain ⟨member, here, there, -, -, unreadable⟩ := same a b loaded loaded'
  obtain ⟨fault, rfl⟩ := unreadable (by decide +kernel)
  exact ⟨first, second, a, b, loaded, loaded', fault, here, there⟩

def nullEntry : Entry where
  fileName := .str "x"
  fullPath := .str "/data/x"
  size := .int 1
  timestamp := .int 0
  owner := .str "alice"
  isFolder := .bool false
  basePath := "x"
  permission := .int 0o644
  credentials := .localFiles .null

/-- After a record with a null, the record that lacks the field is an entry. -/
theorem split_dependent_on_null :
    (ofRecords [[nullUri, noUri], [noUri]]).StoresRecords 0 [nullUri, noUri] ∧
    (ofRecords [[nullUri, noUri], [noUri]]).StoresRecords 1 [noUri] ∧
    lacksCredentials noUri = true ∧
    (ofRecords [[nullUri, noUri], [noUri]]).split (.int 0) =
      .ok ⟨.int 0, #[.entry nullEntry, .entry nullEntry], .int 2, .int 2, true⟩ ∧
    (ofRecords [[nullUri, noUri], [noUri]]).split (.int 1) =
      .ok ⟨.int 1, #[.unreadable (.str "/data/x")
        (.str "Record for backend type 'local' is missing fields: fsUri")], .int 1, .int 0, true⟩ := by
  have first : (ofRecords [[nullUri, noUri], [noUri]]).StoresRecords 0 [nullUri, noUri] :=
    storesRecords_ofRecords rfl (by decide) (by decide +kernel)
  have second : (ofRecords [[nullUri, noUri], [noUri]]).StoresRecords 1 [noUri] :=
    storesRecords_ofRecords rfl (by decide) (by decide +kernel)
  refine ⟨first, second, by decide +kernel, ?_, ?_⟩
  · refine first.split_eq.trans ?_
    decide +kernel
  · refine second.split_eq.trans ?_
    decide +kernel

end Store
end HarvestPlan
