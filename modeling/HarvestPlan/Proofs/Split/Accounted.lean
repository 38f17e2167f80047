import HarvestPlan.SplitReader
import HarvestPlan.Proofs.Entry.Collected

namespace HarvestPlan

open Json (Value Fields)

namespace Member

def isForeign : Member → Bool
  | foreign _ => true
  | _ => false

def record? : Member → Option Fields
  | entry e => e.toRecord.toOption
  | _ => none

def path : Member → Value
  | entry e => e.fullPath
  | unreadable path _ => path
  | foreign _ => .null

end Member

namespace SplitReader

theorem foreignMember_eq_none_iff (position : Nat) (members : List Member) :
    foreignMember? position members = none ↔ ∀ member ∈ members, member.isForeign = false := by
  induction members generalizing position with
  | nil => simp [foreignMember?]
  | cons member rest ih => cases member <;> simp [foreignMember?, ih, Member.isForeign]

structure Accepts (split : Split) : Prop where
  finalized : split.finalized = true
  load : loadFits split = true
  own : ∀ member ∈ split.members.toList, member.isForeign = false

theorem damage_eq_none_iff (split : Split) : damage? split = none ↔ Accepts split := by
  have conditions : Accepts split ↔ split.finalized = true ∧ loadFits split = true ∧
      ∀ member ∈ split.members.toList, member.isForeign = false :=
    ⟨fun ⟨finalized, load, own⟩ => ⟨finalized, load, own⟩,
      fun ⟨finalized, load, own⟩ => ⟨finalized, load, own⟩⟩
  rw [conditions, ← foreignMember_eq_none_iff 0]
  unfold damage?
  cases split.finalized with
  | false => simp
  | true => cases loadFits split <;> simp

theorem ofSplit_eq_ok_iff (split : Split) (reader : SplitReader) :
    ofSplit split = .ok reader ↔
      Accepts split ∧ reader = ⟨0, split.members.toList, 0, []⟩ := by
  rw [← damage_eq_none_iff]
  unfold ofSplit
  cases damage? split with
  | none => simp [eq_comm]
  | some damage => simp

def recordsFrom (start : Nat) (members : List Member) : List (Nat × Fields) :=
  (members.zipIdx start).filterMap fun (member, position) => member.record?.map (position, ·)

def failuresFrom (start : Nat) (members : List Member) : List (Nat × Value) :=
  (members.zipIdx start).filterMap fun (member, position) =>
    if member.record?.isSome then none else some (position, member.path)

theorem recordsFrom_append (start : Nat) (front rest : List Member) :
    recordsFrom start (front ++ rest) =
      recordsFrom start front ++ recordsFrom (start + front.length) rest := by
  rw [recordsFrom, List.zipIdx_append, List.filterMap_append]
  rfl

theorem failuresFrom_append (start : Nat) (front rest : List Member) :
    failuresFrom start (front ++ rest) =
      failuresFrom start front ++ failuresFrom (start + front.length) rest := by
  rw [failuresFrom, List.zipIdx_append, List.filterMap_append]
  rfl

theorem recordsFrom_cons (start : Nat) (member : Member) (rest : List Member) :
    recordsFrom start (member :: rest) =
      (member.record?.map (start, ·)).toList ++ recordsFrom (start + 1) rest := by
  unfold recordsFrom
  cases found : member.record? <;> simp [List.zipIdx_cons, found]

theorem failuresFrom_cons (start : Nat) (member : Member) (rest : List Member) :
    failuresFrom start (member :: rest) =
      (if member.record?.isSome then [] else [(start, member.path)]) ++
        failuresFrom (start + 1) rest := by
  unfold failuresFrom
  cases found : member.record? <;> simp [List.zipIdx_cons, found]

theorem positions_perm (start : Nat) (members : List Member) :
    ((recordsFrom start members).map (·.1) ++ (failuresFrom start members).map (·.1)).Perm
      (List.range' start members.length) := by
  induction members generalizing start with
  | nil => exact .refl _
  | cons member rest ih =>
    have later := (ih (start + 1)).cons start
    rw [recordsFrom_cons, failuresFrom_cons, List.length_cons, List.range'_succ]
    cases member.record? with
    | none => exact (List.perm_middle).trans later
    | some record => exact later

theorem length_accounted (start : Nat) (members : List Member) :
    (recordsFrom start members).length + (failuresFrom start members).length = members.length := by
  have same := (positions_perm start members).length_eq
  simpa using same

theorem convert_ok_iff {member : Member} {record : Fields} :
    convert member = .ok record ↔ member.record? = some record := by
  cases member with
  | entry entry =>
    simp only [convert, Member.record?]
    cases entry.toRecord <;> simp [Outcome.ok_mapError, Outcome.error_mapError, Except.toOption]
  | unreadable path reason => simp [convert, Member.record?]
  | foreign value => simp [convert, Member.record?]

theorem convert_error {member : Member} {path text : Value}
    (failed : convert member = .error (path, text)) :
    member.record? = none ∧ path = member.path := by
  cases member with
  | entry entry =>
    obtain ⟨fault, unconverted, same⟩ := Outcome.mapError_error failed
    cases same
    simp [Member.record?, Member.path, unconverted, Except.toOption]
  | unreadable | foreign =>
    cases failed
    exact ⟨rfl, rfl⟩

def noted (reader : SplitReader) : List (Nat × Value) :=
  reader.errors.map fun error => (error.position, error.fullPath)

/-- The reader has gone over the members of `front`, and those of `rest` are still to come. -/
structure HasRead (front rest : List Member) (reader : SplitReader) : Prop where
  position : reader.position = front.length
  rest : reader.rest = rest
  recordsRead : reader.recordsRead = (recordsFrom 0 front).length
  noted : reader.noted = failuresFrom 0 front

inductive Gives (front rest : List Member) : Option Fields × SplitReader → Prop
  | record {skipped left : List Member} {member : Member} {record : Fields} {after : SplitReader}
      (split : rest = skipped ++ member :: left)
      (passed : recordsFrom front.length skipped = []) (found : member.record? = some record)
      (read : HasRead (front ++ skipped ++ [member]) left after) : Gives front rest (some record, after)
  | nothing {ended : SplitReader} (passed : recordsFrom front.length rest = [])
      (read : HasRead (front ++ rest) [] ended) : Gives front rest (none, ended)

theorem HasRead.step {front rest : List Member} {member : Member} {reader : SplitReader}
    (read : HasRead front (member :: rest) reader) :
    (∀ record, convert member = .ok record → HasRead (front ++ [member]) rest
      ⟨reader.position + 1, rest, reader.recordsRead + 1, reader.errors⟩) ∧
    ∀ path text, convert member = .error (path, text) → HasRead (front ++ [member]) rest
      ⟨reader.position + 1, rest, reader.recordsRead,
        reader.errors ++ [⟨reader.position, path, text⟩]⟩ := by
  obtain ⟨position, -, recordsRead, noted⟩ := read
  have records := recordsFrom_append 0 front [member]
  have failures := failuresFrom_append 0 front [member]
  rw [recordsFrom_cons] at records
  rw [failuresFrom_cons] at failures
  constructor
  · intro record converted
    have found := convert_ok_iff.mp converted
    simp only [found] at records failures
    refine ⟨by simp [position], rfl, ?_, ?_⟩
    · rw [records, recordsRead]
      simp [recordsFrom]
    · rw [failures, ← noted]
      simp [failuresFrom, SplitReader.noted]
  · intro path text failed
    obtain ⟨found, same⟩ := convert_error failed
    simp only [found] at records failures
    refine ⟨by simp [position], rfl, ?_, ?_⟩
    · rw [records, recordsRead]
      simp [recordsFrom]
    · rw [failures, ← noted]
      simp [failuresFrom, SplitReader.noted, position, same]

theorem Gives.skip {front rest : List Member} {member : Member} {given : Option Fields × SplitReader}
    (lacking : member.record? = none) (gives : Gives (front ++ [member]) rest given) :
    Gives front (member :: rest) given := by
  have unread : ∀ others, recordsFrom front.length (member :: others) =
      recordsFrom (front ++ [member]).length others := by
    intro others
    rw [recordsFrom_cons, lacking, List.length_append]
    rfl
  cases gives with
  | @record skipped left found record after split passed hasRecord read =>
    have longer : member :: rest = (member :: skipped) ++ found :: left := by
      rw [split]
      rfl
    refine .record longer ?_ hasRecord ?_
    · rw [unread, passed]
    · simpa using read
  | nothing passed read =>
    refine .nothing ?_ (by simpa using read)
    rw [unread, passed]

theorem HasRead.nextFrom {front rest : List Member} {position recordsRead : Nat}
    {errors : List RecordError} (read : HasRead front rest ⟨position, rest, recordsRead, errors⟩) :
    Gives front rest (nextFrom position recordsRead errors rest) := by
  induction rest generalizing front position errors with
  | nil => exact .nothing rfl (by simpa using read)
  | cons member rest ih =>
    rw [SplitReader.nextFrom]
    cases converted : convert member with
    | ok record =>
      have first : member :: rest = [] ++ member :: rest := rfl
      exact .record first rfl (convert_ok_iff.mp converted)
        (by simpa using read.step.1 record converted)
    | error reason =>
      exact .skip (convert_error converted).1 (ih (read.step.2 _ _ converted))

theorem HasRead.next {front rest : List Member} {reader : SplitReader}
    (read : HasRead front rest reader) : Gives front rest reader.next := by
  obtain ⟨position, _, recordsRead, errors⟩ := reader
  obtain rfl := read.rest
  exact read.nextFrom

theorem HasRead.next_end {front : List Member} {reader : SplitReader}
    (read : HasRead front [] reader) : reader.next = (none, reader) := by
  obtain ⟨position, _, recordsRead, errors⟩ := reader
  obtain rfl := read.rest
  rfl

def take? : Nat → SplitReader → Option (List Fields × SplitReader)
  | 0, reader => some ([], reader)
  | count + 1, reader => match reader.next with
    | (none, _) => none
    | (some record, after) =>
      (take? count after).map fun (records, last) => (record :: records, last)

def EndsInRecord (members : List Member) : Prop :=
  ∀ member, members.getLast? = some member → member.record?.isSome = true

theorem EndsInRecord.further {member : Member} {members : List Member}
    (ends : EndsInRecord members) (found : member.record?.isSome = true) (skipped : List Member) :
    EndsInRecord (skipped ++ member :: members) := by
  intro final isLast
  cases members with
  | nil =>
    rw [List.getLast?_concat] at isLast
    rwa [← Option.some.inj isLast]
  | cons first rest =>
    rw [List.getLast?_append, List.getLast?_cons_cons, List.getLast?_cons, Option.some_or,
      ← List.getLast?_cons] at isLast
    exact ends final isLast

theorem recordsFrom_found {start : Nat} {skipped : List Member} {member : Member} {record : Fields}
    (passed : recordsFrom start skipped = []) (found : member.record? = some record)
    (left : List Member) :
    recordsFrom start (skipped ++ member :: left) =
      (start + skipped.length, record) :: recordsFrom (start + (skipped ++ [member]).length) left := by
  rw [recordsFrom_append, passed, recordsFrom_cons, found]
  simp [Nat.add_assoc]

theorem HasRead.take {front rest : List Member} {reader : SplitReader}
    (read : HasRead front rest reader) {count : Nat}
    (enough : count ≤ (recordsFrom front.length rest).length) :
    ∃ taken left after, rest = taken ++ left ∧ EndsInRecord taken ∧
      recordsFrom front.length taken = (recordsFrom front.length rest).take count ∧
      reader.take? count = some ((recordsFrom front.length taken).map (·.2), after) ∧
      HasRead (front ++ taken) left after := by
  induction count generalizing front rest reader with
  | zero =>
    refine ⟨[], rest, reader, rfl, nofun, rfl, rfl, by simpa using read⟩
  | succ count ih =>
    generalize called : reader.next = given
    have gives := called ▸ read.next
    cases gives with
    | nothing passed _ =>
      rw [passed] at enough
      cases enough
    | @record skipped left member record after split passed found readAfter =>
      subst split
      have shift : (front ++ skipped ++ [member]).length = front.length + (skipped ++ [member]).length := by
        simp
      have whole := recordsFrom_found passed found
      rw [whole, List.length_cons, Nat.add_le_add_iff_right, ← shift] at enough
      obtain ⟨taken, others, last, rfl, ends, records, took, readLast⟩ := ih readAfter enough
      have unfolded : recordsFrom front.length (skipped ++ [member] ++ taken) =
          (front.length + skipped.length, record) ::
            recordsFrom (front ++ skipped ++ [member]).length taken := by
        rw [shift, ← whole taken, List.append_assoc, List.singleton_append]
      refine ⟨skipped ++ [member] ++ taken, others, last, by simp, ?_, ?_, ?_, by simpa using readLast⟩
      · rw [List.append_assoc, List.singleton_append]
        exact ends.further (by rw [found]; rfl) skipped
      · rw [unfolded, records, whole, List.take_succ_cons, shift]
      · simp only [take?, called, took, unfolded]
        rfl

theorem HasRead.drain {front rest : List Member} {reader : SplitReader}
    (read : HasRead front rest reader) {fuel : Nat} (enough : rest.length < fuel) :
    ∃ last ended, drainFrom fuel reader = ((recordsFrom front.length rest).map (·.2), ended) ∧
      reader.take? (recordsFrom front.length rest).length =
        some ((recordsFrom front.length rest).map (·.2), last) ∧
      last.next = (none, ended) ∧ HasRead (front ++ rest) [] ended := by
  induction fuel generalizing front rest reader with
  | zero => cases enough
  | succ fuel ih =>
    generalize called : reader.next = given
    have gives := called ▸ read.next
    cases gives with
    | @nothing ended passed readEnded =>
      refine ⟨reader, ended, ?_, ?_, called, readEnded⟩
      · simp [drainFrom, called, passed]
      · rw [passed]
        rfl
    | @record skipped left member record after split passed found readAfter =>
      subst split
      have less : left.length < fuel := by
        simp only [List.length_append, List.length_cons] at enough
        omega
      have shift : (front ++ skipped ++ [member]).length = front.length + (skipped ++ [member]).length := by
        simp
      obtain ⟨last, ended, drained, took, stops, readEnded⟩ := ih readAfter less
      rw [recordsFrom_found passed found, ← shift]
      refine ⟨last, ended, ?_, ?_, stops, by simpa using readEnded⟩
      · simp [drainFrom, called, drained]
      · simp only [take?, called, List.length_cons, took]
        rfl

/-- What a reader makes of a split, however often it is asked for the next record. -/
structure Accounts (split : Split) (reader : SplitReader) : Prop where
  collects : ∀ entry, .entry entry ∈ split.members.toList → Collects entry.toRecord
  /-- So many calls go over the members up to the last one that gave its record. -/
  gives : ∀ count ≤ (recordsFrom 0 split.members.toList).length, ∃ front left after,
    split.members.toList = front ++ left ∧ EndsInRecord front ∧
      recordsFrom 0 front = (recordsFrom 0 split.members.toList).take count ∧
      reader.take? count = some ((recordsFrom 0 front).map (·.2), after) ∧
      after.recordsRead = count ∧ after.noted = failuresFrom 0 front
  /-- After the last record a call gives nothing, and so do all others. -/
  ends : ∃ last, reader.take? (recordsFrom 0 split.members.toList).length =
      some ((recordsFrom 0 split.members.toList).map (·.2), last) ∧
    last.next = (none, reader.drain.2) ∧ reader.drain.2.next = (none, reader.drain.2)
  records : reader.drain.1 = (recordsFrom 0 split.members.toList).map (·.2)
  recordsRead : reader.drain.2.recordsRead = (recordsFrom 0 split.members.toList).length
  noted : reader.drain.2.noted = failuresFrom 0 split.members.toList
  ordered : (reader.drain.2.errors.map (·.position)).Pairwise (· < ·)
  load : split.load.sameKey
    (.int (reader.drain.2.recordsRead + reader.drain.2.errors.length : Nat)) = true
  positions : ((recordsFrom 0 split.members.toList).map (·.1) ++
    reader.drain.2.errors.map (·.position)).Perm (List.range split.size)

theorem hasRead_start (members : List Member) : HasRead [] members ⟨0, members, 0, []⟩ :=
  ⟨rfl, rfl, rfl, rfl⟩

theorem failures_sublist (start : Nat) (members : List Member) :
    ((failuresFrom start members).map (·.1)).Sublist (List.range' start members.length) := by
  induction members generalizing start with
  | nil => exact .slnil
  | cons member rest ih =>
    rw [failuresFrom_cons, List.length_cons, List.range'_succ]
    cases member.record? with
    | none => exact (ih (start + 1)).cons_cons start
    | some record => exact (ih (start + 1)).cons start

/-- A reader accounts for every member of a split that it accepts, exactly once. -/
theorem ofSplit_accounts (split : Split) (reader : SplitReader)
    (accepted : ofSplit split = .ok reader) : Accepts split ∧ Accounts split reader := by
  obtain ⟨accepts, rfl⟩ := (ofSplit_eq_ok_iff split reader).mp accepted
  have start := hasRead_start split.members.toList
  obtain ⟨last, ended, drained, took, stops, read⟩ := start.drain (Nat.lt_succ_self _)
  rw [List.nil_append] at read
  have whole : SplitReader.drain ⟨0, split.members.toList, 0, []⟩ =
      ((recordsFrom 0 split.members.toList).map (·.2), ended) := drained
  have positions : ended.errors.map (·.position) =
      (failuresFrom 0 split.members.toList).map (·.1) := by
    rw [← read.noted, SplitReader.noted, List.map_map]
    rfl
  refine ⟨accepts, ?_⟩
  constructor
  case collects => exact fun entry _ => entry.toRecord_collects
  case gives =>
    intro count enough
    obtain ⟨front, left, after, members, ends, records, took, readAfter⟩ := start.take enough
    refine ⟨front, left, after, members, ends, records, took, ?_, readAfter.noted⟩
    rw [readAfter.recordsRead, List.nil_append]
    exact (congrArg List.length records).trans (List.length_take_of_le enough)
  case ends =>
    rw [whole]
    exact ⟨last, took, stops, read.next_end⟩
  case records => rw [whole]
  case recordsRead =>
    rw [whole]
    exact read.recordsRead
  case noted =>
    rw [whole]
    exact read.noted
  case ordered =>
    rw [whole]
    simp only [positions]
    exact List.Pairwise.sublist (failures_sublist 0 _) List.pairwise_lt_range'
  case load =>
    rw [whole]
    have count : ended.errors.length = (failuresFrom 0 split.members.toList).length := by
      rw [← read.noted, SplitReader.noted, List.length_map]
    simp only [read.recordsRead, count, length_accounted]
    exact accepts.load
  case positions =>
    rw [whole]
    simp only [positions]
    have perm := positions_perm 0 split.members.toList
    rwa [← List.range_eq_range'] at perm

-- Members of every kind: two entries that can be converted, four whose credentials are of no known
-- kind, and a stand-in.
def entryWith (name : String) (credentials : Credentials) : Member :=
  .entry ⟨.str name, .str ("/data/" ++ name), .int 1, .int 0, .str "alice", .bool false, name,
    .int 0o644, credentials⟩

def straySplit : Split where
  index := .int 3
  members :=
    #[entryWith "a" (.foreign "TapeCredentials" (.str "tape")),
      entryWith "b" (.localFiles (.str "file:///")),
      entryWith "c" (.foreign "TapeCredentials" (.arr [])),
      entryWith "d" (.foreign "TapeCredentials" (.str "local")),
      .unreadable (.str "/data/e") (.str "Record has no backendType field"),
      entryWith "f" (.amazonS3 (.str "AK") (.str "SK") .null (.str "b")),
      entryWith "g" (.tagless "TapeCredentials")]
  load := .int 7
  totalBytes := .int 6
  finalized := true

theorem ofSplit_accounts_stray :
    ofSplit straySplit = .ok ⟨0, straySplit.members.toList, 0, []⟩ ∧
      (recordsFrom 0 straySplit.members.toList).map (·.1) = [1, 5] ∧
      Accepts straySplit ∧ Accounts straySplit ⟨0, straySplit.members.toList, 0, []⟩ := by
  have accepted : ofSplit straySplit = .ok ⟨0, straySplit.members.toList, 0, []⟩ := by rfl
  exact ⟨accepted, by decide, ofSplit_accounts _ _ accepted⟩

end SplitReader
end HarvestPlan
