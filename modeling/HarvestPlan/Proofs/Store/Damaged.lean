import HarvestPlan.Proofs.Json.Nested
import HarvestPlan.Proofs.Store.Places
import HarvestPlan.Proofs.Store.Unbroken

namespace HarvestPlan

open Json (Value Fields)

namespace Store

/-- A text that the reader gives up is no record either, as deep as an object in it may lie. -/
def IsDamaged (rows : List EntryRow) (load : Value) : Prop :=
  ¬AreExactly rows load ∨ ∃ row ∈ rows, ¬IsRecordText row.text

/-- What is said of each row: it has no integer that is too long, and a record has no base path that is
    no text and no size that is a binary number. -/
structure AreOrdinary (rows : List EntryRow) : Prop where
  short : ∀ row ∈ rows, ∀ digits, Json.read row.text ≠ .error (.longInteger digits)
  textual : ∀ row ∈ rows, ∀ record : Fields, Json.read row.text = .ok (.obj record) →
    record.hasTextPath = true
  whole : ∀ row ∈ rows, ∀ record : Fields, Json.read row.text = .ok (.obj record) →
    record.hasFloatSize = false

inductive IsRefusal (index : Value) (rows : List EntryRow) : Failure → Prop
  | damaged (damage : Damage) : IsRefusal index rows (.damaged index damage)
  | tooDeep {row : EntryRow} {compound : Json.Compound} (present : row ∈ rows)
      (deep : Json.read row.text = .error (.tooDeep compound)) :
      IsRefusal index rows (.tooDeep compound)

theorem AreOrdinary.of_subset {rows others : List EntryRow} (ordinary : AreOrdinary rows)
    (held : ∀ row ∈ others, row ∈ rows) : AreOrdinary others where
  short row present := ordinary.short row (held row present)
  textual row present := ordinary.textual row (held row present)
  whole row present := ordinary.whole row (held row present)

theorem IsRefusal.of_subset {index : Value} {rows others : List EntryRow} {failure : Failure}
    (refusal : IsRefusal index others failure) (held : ∀ row ∈ others, row ∈ rows) :
    IsRefusal index rows failure := by
  cases refusal with
  | damaged damage => exact .damaged damage
  | tooDeep present deep => exact .tooDeep (held _ present) deep

theorem AreOrdinary.sound {position : Nat} {rows : List EntryRow} {records : List Fields}
    (ordinary : AreOrdinary rows) (are : AreRecords position rows records) : AreSound records := by
  have source : ∀ record ∈ records, ∃ row ∈ rows, Json.read row.text = .ok (.obj record) :=
    fun record present => Lists.exists_left are.texts present
  constructor
  case textual =>
    intro record present
    obtain ⟨row, held, read⟩ := source record present
    exact ordinary.textual row held record read
  case summable =>
    left
    intro record present
    obtain ⟨row, held, read⟩ := source record present
    exact ordinary.whole row held record read

theorem recordOf_refused {rows : List EntryRow} {row : EntryRow} (ordinary : AreOrdinary rows)
    (present : row ∈ rows) (broken : ¬IsRecordText row.text) (index : Value) (position : Nat) :
    ∃ failure, recordOf index position row.text = .error failure ∧
      IsRefusal index rows failure := by
  unfold recordOf
  cases read : Json.read row.text with
  | ok value =>
    cases value with
    | obj record => exact absurd ⟨record, read⟩ broken
    | _ => exact ⟨_, rfl, .damaged _⟩
  | error cause =>
    cases cause with
    | malformed => exact ⟨_, rfl, .damaged _⟩
    | longInteger digits => exact absurd read (ordinary.short row present digits)
    | tooDeep compound => exact ⟨_, rfl, .tooDeep present read⟩

theorem added_whole {split : Split} {load total : Int} {record : Fields} {member : Member}
    (opened : split.finalized = false) (counted : split.load = .int load)
    (whole : split.totalBytes.toInt? = some total) (rebuilds : Rebuilds record member)
    (noFloat : record.hasFloatSize = false) :
    ∃ sum, split.added member = .ok (split.filled [member] load (.int sum)) := by
  obtain ⟨size, weighs, -, float⟩ := rebuilds.sized
  obtain ⟨bytes, integer⟩ : ∃ bytes, size.toInt? = some bytes := by
    cases integer : size.toInt? with
    | some bytes => exact ⟨bytes, rfl⟩
    | none =>
      rw [float integer] at noFloat
      cases noFloat
  exact ⟨total + bytes, Split.added_filled opened counted weighs (Quantity.add_toInt whole integer)⟩

theorem addRows_cases {position : Nat} {split : Split} {load total : Int} {rows : List EntryRow}
    (opened : split.finalized = false) (counted : split.load = .int load)
    (whole : split.totalBytes.toInt? = some total) (ordinary : AreOrdinary rows)
    (shared : SharedCredentials) :
    (∃ records, AreRecords position rows records) ∨
      ∃ failure, addRows position shared split rows = .error failure ∧
        IsRefusal split.index rows failure := by
  -- By induction on the rows: what is added leaves the split open, counted and its total an integer.
  induction rows generalizing position split load total shared with
  | nil => exact .inl ⟨[], .nil position⟩
  | cons row rest ih =>
    by_cases placed : row.position.same (.ofInt position) = true
    case neg =>
      refine .inr ⟨_, ?_, .damaged (.missingPosition position)⟩
      simp [addRows, placed, bind, Except.bind, throw, throwThe, MonadExceptOf.throw]
    by_cases text : IsRecordText row.text
    case neg =>
      obtain ⟨failure, failed, refusal⟩ :=
        recordOf_refused ordinary List.mem_cons_self text split.index position
      refine .inr ⟨failure, ?_, refusal⟩
      simp [addRows, placed, failed, bind, Except.bind]
    obtain ⟨record, read⟩ := text
    have known : recordOf split.index position row.text = .ok record := by rw [recordOf, read]
    have textual := ordinary.textual row List.mem_cons_self record read
    have noFloat := ordinary.whole row List.mem_cons_self record read
    rcases rebuild_cases shared record with ⟨member, grown, here, rebuilds⟩ | ⟨-, textless⟩
    case inr =>
      rw [textual] at textless
      cases textless
    obtain ⟨sum, added⟩ := added_whole opened counted whole rebuilds noFloat
    have step : addRows position shared split (row :: rest) =
        addRows (position + 1) grown (split.filled [member] load (.int sum)) rest := by
      simp [addRows, placed, known, here, added, bind, Except.bind]
    rcases @ih (position + 1) (split.filled [member] load (.int sum)) _ _ opened rfl rfl
      (ordinary.of_subset fun _ held => List.mem_cons_of_mem row held) grown with
      ⟨records, others⟩ | ⟨failure, failed, refusal⟩
    · exact .inl ⟨record :: records, .cons placed read others⟩
    · rw [step]
      exact .inr ⟨failure, failed, refusal.of_subset fun _ held => List.mem_cons_of_mem row held⟩

structure DetectsDamage (store : Store) (index : Nat) (load : Value) : Prop where
  detected : (∀ row ∈ store.tables.rowsOf (.ofInt index), ∀ compound,
      Json.read row.text ≠ .error (.tooDeep compound)) →
    ((∃ damage, store.split (.int index) = .error (.damaged (.int index) damage)) ↔
      IsDamaged (store.tables.rowsOf (.ofInt index)) load)
  refused : IsDamaged (store.tables.rowsOf (.ofInt index)) load →
    ∃ failure, store.split (.int index) = .error failure ∧
      IsRefusal (.int index) (store.tables.rowsOf (.ofInt index)) failure
  loaded : ¬IsDamaged (store.tables.rowsOf (.ofInt index)) load →
    ∃ records split, AreRecords 0 (store.tables.entriesOf (.ofInt index)) records ∧
      store.split (.int index) = .ok split ∧ IsLoadOf records (.int index) split ∧
      split.load = load
  own : ∀ other : Store, other.ListsSplit index load →
    other.tables.rowsOf (.ofInt index) = store.tables.rowsOf (.ofInt index) →
    other.split (.int index) = store.split (.int index)

theorem addRows_records {rows : List EntryRow} {records : List Fields}
    (ordinary : AreOrdinary rows) (are : AreRecords 0 rows records) (index : Value) :
    ∃ grown, addRows 0 [] (.empty index) rows = .ok grown ∧ grown.load = .int records.length ∧
      IsLoadOf records index grown.finalize := by
  obtain ⟨grown, done, load⟩ := (ordinary.sound are).filled index
  exact ⟨grown, (addRows_eq_fill are [] (.empty index)).trans done, load.load, load⟩

theorem AreOrdinary.inOrder {rows : List EntryRow} (ordinary : AreOrdinary rows) :
    AreOrdinary (inOrder rows) :=
  ordinary.of_subset fun _ => (inOrder_perm rows).mem_iff.mp

theorem assemble_intact {tables : Tables} {key : Int} {load : Value}
    (ordinary : AreOrdinary (tables.rowsOf (.ofInt key)))
    (intact : ¬IsDamaged (tables.rowsOf (.ofInt key)) load) (index : Value) :
    ∃ records split, AreRecords 0 (tables.entriesOf (.ofInt key)) records ∧
      assemble tables index key load = .ok split ∧ IsLoadOf records index split ∧
      split.load = load := by
  obtain ⟨exact, texts⟩ := not_or.mp intact
  obtain ⟨n, rfl, placed⟩ := Classical.not_not.mp exact
  obtain ⟨records, are, rfl⟩ := exists_areRecords ⟨n, rfl, placed⟩ fun row present =>
    Classical.not_not.mp fun broken => texts ⟨row, present, broken⟩
  obtain ⟨grown, added, counted, load⟩ := addRows_records ordinary.inOrder are index
  refine ⟨records, grown.finalize, are, ?_, load, counted⟩
  simp [assemble, entriesOf_eq, added, counted, bind, Except.bind, pure, Except.pure]

theorem assemble_damaged {tables : Tables} {key : Int} {load : Value}
    (ordinary : AreOrdinary (tables.rowsOf (.ofInt key)))
    (damaged : IsDamaged (tables.rowsOf (.ofInt key)) load) (index : Value) :
    ∃ failure, assemble tables index key load = .error failure ∧
      IsRefusal index (tables.rowsOf (.ofInt key)) failure := by
  have start : (Split.empty index).totalBytes.toInt? = some 0 := rfl
  rcases @addRows_cases 0 (.empty index) 0 0 _ rfl rfl start ordinary.inOrder [] with
    ⟨records, are⟩ | ⟨failure, failed, refusal⟩
  · -- The rows are all records at their positions, so the load is not their number.
    obtain ⟨exact, texts⟩ := areExactly_of_areRecords are
    have miscounted : .int records.length ≠ load := by
      rintro rfl
      rcases damaged with gaps | ⟨row, present, broken⟩
      · exact gaps exact
      · exact broken (texts row present)
    obtain ⟨grown, added, counted, -⟩ := addRows_records ordinary.inOrder are index
    refine ⟨.damaged index (.wrongCount load grown.size), ?_, .damaged _⟩
    simp [assemble, entriesOf_eq, added, counted, miscounted, bind, Except.bind, throw, throwThe,
      MonadExceptOf.throw]
  · refine ⟨failure, ?_, refusal.of_subset fun _ => (inOrder_perm _).mem_iff.mp⟩
    rw [assemble, entriesOf_eq, failed]
    rfl

/-- A split with damage is never loaded and one without always is, from its own rows alone. -/
theorem split_detectsDamage {store : Store} {index : Nat} {load : Value}
    (lists : store.ListsSplit index load)
    (ordinary : AreOrdinary (store.tables.rowsOf (.ofInt index))) :
    store.DetectsDamage index load := by
  have refused : IsDamaged (store.tables.rowsOf (.ofInt index)) load →
      ∃ failure, store.split (.int index) = .error failure ∧
        IsRefusal (.int index) (store.tables.rowsOf (.ofInt index)) failure := by
    rw [lists.split_eq]
    exact fun damaged => assemble_damaged ordinary damaged (.int index)
  have loaded : ¬IsDamaged (store.tables.rowsOf (.ofInt index)) load →
      ∃ records split, AreRecords 0 (store.tables.entriesOf (.ofInt index)) records ∧
        store.split (.int index) = .ok split ∧ IsLoadOf records (.int index) split ∧
        split.load = load := by
    rw [lists.split_eq]
    exact fun intact => assemble_intact ordinary intact (.int index)
  constructor
  case detected =>
    intro shallow
    constructor
    · rintro ⟨damage, failed⟩
      by_contra intact
      obtain ⟨records, split, -, done, -⟩ := loaded intact
      rw [failed] at done
      cases done
    · intro damaged
      obtain ⟨failure, failed, refusal⟩ := refused damaged
      cases refusal with
      | damaged damage => exact ⟨damage, failed⟩
      | tooDeep present deep => exact absurd deep (shallow _ present _)
  case refused => exact refused
  case loaded => exact loaded
  case own =>
    intro other otherLists same
    have rows : other.tables.entriesOf (.ofInt index) = store.tables.entriesOf (.ofInt index) :=
      congrArg inOrder same
    rw [otherLists.split_eq, lists.split_eq, assemble, assemble, rows]

def sampleText : String := Json.write (.obj sampleRecord)

def scattered : Store := .ofTables ⟨[], [⟨0, .int 2, .int 2, ""⟩, ⟨1, .int 1, .int 0, ""⟩],
  [⟨.ofInt 0, .ofInt 1, sampleText⟩, ⟨.ofInt 1, .ofInt 0, "[1,"⟩,
    ⟨.ofInt 0, .ofInt 0, sampleText⟩]⟩

theorem read_sampleText : Json.read sampleText = .ok (.obj sampleRecord) :=
  Json.IsFlat.read_write (by decide)

theorem read_broken :
    Json.read "[1," = .error (.malformed .value 1 4 3) := by decide +kernel

theorem text_of_scattered :
    (∀ row ∈ scattered.tables.rowsOf (.ofInt 0), row.text = sampleText) ∧
      ∀ row ∈ scattered.tables.rowsOf (.ofInt 1), row.text = "[1," := by
  decide +kernel

theorem areOrdinary_scattered :
    AreOrdinary (scattered.tables.rowsOf (.ofInt 0)) ∧
      AreOrdinary (scattered.tables.rowsOf (.ofInt 1)) := by
  constructor
  · constructor
    all_goals
      intro row present
      rw [text_of_scattered.1 row present, read_sampleText]
    case short => nofun
    all_goals
      rintro record same
      cases same
      decide
  · constructor
    all_goals
      intro row present
      rw [text_of_scattered.2 row present, read_broken]
      nofun

theorem isDamaged_scattered :
    ¬IsDamaged (scattered.tables.rowsOf (.ofInt 0)) (.int 2) ∧
      IsDamaged (scattered.tables.rowsOf (.ofInt 1)) (.int 1) := by
  constructor
  · rintro (gaps | ⟨row, present, broken⟩)
    · exact gaps ⟨2, rfl, rfl, by decide +kernel⟩
    · rw [text_of_scattered.1 row present] at broken
      exact broken ⟨sampleRecord, read_sampleText⟩
  · refine .inr ⟨⟨.ofInt 1, .ofInt 0, "[1,"⟩, by decide +kernel, ?_⟩
    rintro ⟨record, read⟩
    rw [read_broken] at read
    cases read

theorem split_detectsDamage_scattered :
    (scattered.ListsSplit 0 (.int 2) ∧ AreOrdinary (scattered.tables.rowsOf (.ofInt 0)) ∧
      ¬IsDamaged (scattered.tables.rowsOf (.ofInt 0)) (.int 2) ∧
      scattered.DetectsDamage 0 (.int 2)) ∧
    scattered.ListsSplit 1 (.int 1) ∧ AreOrdinary (scattered.tables.rowsOf (.ofInt 1)) ∧
      IsDamaged (scattered.tables.rowsOf (.ofInt 1)) (.int 1) ∧
      scattered.DetectsDamage 1 (.int 1) := by
  have first : scattered.ListsSplit 0 (.int 2) :=
    ⟨rfl, by decide, by decide, ⟨0, .int 2, .int 2, ""⟩, rfl, rfl⟩
  have second : scattered.ListsSplit 1 (.int 1) :=
    ⟨rfl, by decide, by decide, ⟨1, .int 1, .int 0, ""⟩, rfl, rfl⟩
  obtain ⟨ordinary, otherOrdinary⟩ := areOrdinary_scattered
  obtain ⟨intact, damaged⟩ := isDamaged_scattered
  exact ⟨⟨first, ordinary, intact, split_detectsDamage first ordinary⟩, second, otherOrdinary,
    damaged, split_detectsDamage second otherOrdinary⟩

def single (text : String) : Store :=
  .ofTables ⟨[], [⟨0, .int 1, .int 0, ""⟩], [⟨.ofInt 0, .ofInt 0, text⟩]⟩

theorem rowsOf_single (text : String) :
    (single text).tables.rowsOf (.ofInt 0) = [⟨.ofInt 0, .ofInt 0, text⟩] := rfl

theorem listsSplit_single (text : String) : (single text).ListsSplit 0 (.int 1) :=
  ⟨rfl, by decide, Nat.one_pos, ⟨0, .int 1, .int 0, ""⟩, rfl, rfl⟩

theorem split_single_tooDeep {text : String} {compound : Json.Compound}
    (deep : Json.read text = .error (.tooDeep compound)) :
    (single text).split (.int 0) = .error (.tooDeep compound) := by
  have failed : recordOf (.int 0) 0 text = .error (.tooDeep compound) := by rw [recordOf, deep]
  have opened : (single text).split (.int 0) = assemble (single text).tables (.int 0) 0 (.int 1) :=
    (listsSplit_single text).split_eq
  rw [opened, assemble, entriesOf_eq, rowsOf_single, inOrder, List.mergeSort_singleton]
  simp [addRows, Cell.same_ofInt, Split.empty, failed, bind, Except.bind]

/-- Arrays that are never closed are no JSON, but a text of so many is not refused as damage. -/
theorem unclosed_undetected :
    (single (.ofList (Json.unclosed 5000))).ListsSplit 0 (.int 1) ∧
    AreOrdinary ((single (.ofList (Json.unclosed 5000))).tables.rowsOf (.ofInt 0)) ∧
    IsDamaged ((single (.ofList (Json.unclosed 5000))).tables.rowsOf (.ofInt 0)) (.int 1) ∧
    Json.readValue 9999 5000 (Json.unclosed 5000) = .error (.found .value 0) ∧
    ∀ damage, (single (.ofList (Json.unclosed 5000))).split (.int 0) ≠
      .error (.damaged (.int 0) damage) := by
  obtain ⟨deep, malformed⟩ := @Json.read_unclosed 4999 (by decide)
  generalize String.ofList (Json.unclosed 5000) = text at deep ⊢
  rw [rowsOf_single]
  refine ⟨listsSplit_single text, ?_, .inr ⟨_, List.mem_singleton_self _, ?_⟩, malformed, ?_⟩
  · constructor
    all_goals
      intro row present
      obtain rfl := List.mem_singleton.mp present
      rw [deep]
      nofun
  · rintro ⟨record, read⟩
    rw [deep] at read
    cases read
  · intro damage refused
    rw [split_single_tooDeep deep] at refused
    cases refused

end Store
end HarvestPlan
