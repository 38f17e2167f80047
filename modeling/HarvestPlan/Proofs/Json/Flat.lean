import HarvestPlan.Proofs.Json.Numbers
import HarvestPlan.Proofs.Json.Strings

namespace HarvestPlan.Json

def IsScalar : Value → Prop
  | .null | .bool _ | .int _ | .str _ => True
  | .float _ | .arr _ | .obj _ => False

theorem readValue_scalar {c : Char} (notQuote : c ≠ '"') (notArray : c ≠ '[')
    (notObject : c ≠ '\x7b') (fuel room : Nat) (cs : List Char) :
    readValue (fuel + 1) room (c :: cs) = readScalar (c :: cs) := by
  rw [readValue.eq_def]
  simp only
  split <;> simp_all

theorem toString_cons (i : Int) :
    ∃ c cs, (toString i).toList = c :: cs ∧ (c.isDigit = true ∨ c = '-') := by
  obtain ⟨c, cs, shape, digit⟩ := toDigits_cons i.natAbs
  rw [toString_toList, shape]
  by_cases positive : 0 ≤ i
  · exact ⟨c, cs, if_pos positive, .inl digit⟩
  · exact ⟨'-', c :: cs, if_neg positive, .inr rfl⟩

theorem readValue_written {value : Value} (scalar : IsScalar value)
    (writable : isWritable value = true) (fuel room : Nat) {rest : List Char}
    (ends : EndsNumber rest) :
    readValue (fuel + 1) room (written value ++ rest) = .ok (value, rest) := by
  cases value with
  | null => exact (readValue_scalar (by decide) (by decide) (by decide) fuel room _).trans rfl
  | bool b =>
    cases b with
    | true => exact (readValue_scalar (by decide) (by decide) (by decide) fuel room _).trans rfl
    | false => exact (readValue_scalar (by decide) (by decide) (by decide) fuel room _).trans rfl
  | int i =>
    have short : (Nat.toDigits 10 i.natAbs).length ≤ Text.maxIntegerDigits := by
      simpa only [isWritable, decide_eq_true_eq] using writable
    have read := readScalar_int short ends
    obtain ⟨c, cs, shape, start⟩ := toString_cons i
    simp only [written]
    rw [shape] at read ⊢
    have other : ∀ d : Char, d.isDigit = false → d ≠ '-' → c ≠ d := by
      rintro d notDigit notMinus rfl
      rcases start with digit | minus
      · rw [digit] at notDigit
        cases notDigit
      · exact notMinus minus
    exact (readValue_scalar (other '"' rfl (by decide)) (other '[' rfl (by decide))
      (other '\x7b' rfl (by decide)) fuel room _).trans read
  | str s =>
    simp only [written, writtenString, List.cons_append, List.append_assoc, List.nil_append]
    rw [readValue.eq_def]
    simp only [readString_written]
    rfl
  | _ => cases scalar

theorem put_new {fields : Fields} {name : String} (new : name ∉ fields.map (·.1)) (value : Value) :
    fields.put name value = fields ++ [(name, value)] := by
  induction fields with
  | nil => rfl
  | cons field rest ih =>
    have other : field.1 ≠ name := fun same => new (by simp [same])
    have below : name ∉ rest.map (·.1) := fun present => new (List.mem_cons_of_mem _ present)
    simp [Fields.put, other, ih below]

theorem skipSpace_cons {c : Char} (visible : isSpace c = false) (cs : List Char) :
    skipSpace (c :: cs) = c :: cs ∧ skipSpace (' ' :: c :: cs) = c :: cs := by
  have blank : isSpace ' ' = true := rfl
  constructor
  · simp [skipSpace, visible]
  · simp [skipSpace, visible, blank]

theorem written_cons {value : Value} (scalar : IsScalar value) :
    ∃ c cs, written value = c :: cs ∧ isSpace c = false := by
  cases value with
  | null => exact ⟨'n', _, rfl, rfl⟩
  | bool b =>
    cases b with
    | true => exact ⟨'t', _, rfl, rfl⟩
    | false => exact ⟨'f', _, rfl, rfl⟩
  | int i =>
    obtain ⟨c, cs, shape, start⟩ := toString_cons i
    refine ⟨c, cs, shape, ?_⟩
    rcases start with digit | rfl
    · cases space : isSpace c with
      | false => rfl
      | true =>
        simp only [isSpace, Bool.or_eq_true, beq_iff_eq] at space
        rcases space with ((rfl | rfl) | rfl) | rfl <;> cases digit
    · rfl
  | str s => exact ⟨'"', _, rfl, rfl⟩
  | _ => cases scalar

theorem readFields_field {name : String} {value : Value} (scalar : IsScalar value)
    (writable : isWritable value = true) (fuel room : Nat) {before : Fields} (new : name ∉ before.map (·.1)) (rest : List Char) :
    readFields (fuel + 2) room before
        (writtenString name ++ ':' :: ' ' :: written value ++ '\x7d' :: rest) =
      .ok (before ++ [(name, value)], rest) ∧
    readFields (fuel + 2) room before
        (writtenString name ++ ':' :: ' ' :: written value ++ ',' :: ' ' :: '"' :: rest) =
      readFields (fuel + 1) room (before ++ [(name, value)]) ('"' :: rest) := by
  obtain ⟨c, cs, shape, visible⟩ := written_cons scalar
  have colon : ∀ tail, skipSpace (':' :: tail) = ':' :: tail := fun tail =>
    (skipSpace_cons rfl tail).1
  have toValue : ∀ tail, skipSpace (' ' :: (written value ++ tail)) = written value ++ tail := by
    intro tail
    rw [shape]
    exact (skipSpace_cons visible (cs ++ tail)).2
  have name_ : ∀ tail, writtenString name ++ tail =
      '"' :: (name.toList.flatMap escapedChar ++ '"' :: tail) := by
    intro tail
    simp [writtenString]
  constructor
  · have ends : EndsNumber ('\x7d' :: rest) := by
      intro d first
      cases first
      decide
    have read := readValue_written scalar writable fuel room ends
    have closing := (skipSpace_cons (c := '\x7d') rfl rest).1
    rw [List.append_assoc, name_, readFields.eq_def]
    simp only [readString_written, List.cons_append, bind, Except.bind, colon, toValue, read,
      closing, put_new new]
    rfl
  · have ends : EndsNumber (',' :: ' ' :: '"' :: rest) := by
      intro d first
      cases first
      decide
    have read := readValue_written scalar writable fuel room ends
    have comma := (skipSpace_cons (c := ',') rfl (' ' :: '"' :: rest)).1
    have next := (skipSpace_cons (c := '"') rfl rest).2
    rw [List.append_assoc, name_, readFields.eq_def]
    simp only [readString_written, List.cons_append, bind, Except.bind, colon, toValue, read,
      comma, next, put_new new]

theorem writtenFields_cons (name : String) (value : Value) (fields : Fields) :
    ∃ cs, writtenFields ((name, value) :: fields) = '"' :: cs := by
  cases fields with
  | nil => exact ⟨_, rfl⟩
  | cons next rest => exact ⟨_, rfl⟩

theorem length_le_writtenFields (fields : Fields) :
    fields.length ≤ (writtenFields fields).length := by
  induction fields with
  | nil => exact Nat.le_refl 0
  | cons field rest ih =>
    obtain ⟨name, value⟩ := field
    cases rest with
    | nil => simp [writtenFields, writtenString]
    | cons next others =>
      simp only [writtenFields, List.length_append, List.length_cons] at ih ⊢
      omega

theorem readFields_written {fields : Fields} (present : fields ≠ [])
    (scalars : ∀ field ∈ fields, IsScalar field.2) (writable : areFieldsWritable fields = true)
    {before : Fields} (distinct : ((before ++ fields).map (·.1)).Nodup) {fuel : Nat} (enough : fields.length < fuel)
    (room : Nat) (rest : List Char) :
    readFields fuel room before (writtenFields fields ++ '\x7d' :: rest) =
      .ok (before ++ fields, rest) := by
  induction fields generalizing before fuel with
  | nil => exact absurd rfl present
  | cons field others ih =>
    obtain ⟨name, value⟩ := field
    have scalar : IsScalar value := scalars (name, value) (by simp)
    rw [areFieldsWritable, Bool.and_eq_true] at writable
    have new : name ∉ before.map (·.1) := by
      intro old
      rw [List.map_append, List.map_cons] at distinct
      exact (List.nodup_append.mp distinct).2.2 name old name (by simp) rfl
    obtain ⟨fuel, rfl⟩ : ∃ left, fuel = left + 2 := by
      refine ⟨fuel - 2, ?_⟩
      rw [List.length_cons] at enough
      omega
    cases others with
    | nil =>
      have last := (readFields_field scalar writable.1 fuel room new rest).1
      simpa [writtenFields] using last
    | cons next more =>
      obtain ⟨cs, shape⟩ := writtenFields_cons next.1 next.2 more
      have first := (readFields_field scalar writable.1 fuel room new (cs ++ '\x7d' :: rest)).2
      have apart : ((before ++ [(name, value)] ++ next :: more).map (·.1)).Nodup := by
        simpa using distinct
      have fewer : (next :: more).length < fuel + 1 := by simpa using enough
      have later := ih (by simp) (fun field held => scalars field (List.mem_cons_of_mem _ held))
        writable.2 apart fewer
      rw [shape, List.cons_append] at later
      rw [later] at first
      simpa [writtenFields, shape] using first

theorem readValue_object (fuel room : Nat) (cs : List Char) :
    readValue (fuel + 1) (room + 1) ('\x7b' :: '"' :: cs) =
      (readFields fuel room [] ('"' :: cs)).map fun (read, left) => (.obj read, left) := by
  have quote : skipSpace ('"' :: cs) = '"' :: cs := (skipSpace_cons rfl cs).1
  rw [readValue.eq_def]
  simp only [quote]
  split <;> simp_all

theorem read_write {fields : Fields} (present : fields ≠ [])
    (scalars : ∀ field ∈ fields, IsScalar field.2) (writable : isWritable (.obj fields) = true)
    (distinct : (fields.map (·.1)).Nodup) : read (write (.obj fields)) = .ok (.obj fields) := by
  have text : (write (.obj fields)).toList = '\x7b' :: (writtenFields fields ++ ['\x7d']) := by
    simp [write, written]
  have long := length_le_writtenFields fields
  obtain ⟨cs, shape⟩ : ∃ cs, writtenFields fields = '"' :: cs := by
    obtain ⟨field, others, rfl⟩ := List.exists_cons_of_ne_nil present
    exact writtenFields_cons field.1 field.2 others
  have enough : fields.length < 2 * (cs.length + 3) := by
    rw [shape, List.length_cons] at long
    omega
  have apart : ((([] : Fields) ++ fields).map (·.1)).Nodup := distinct
  have inside := readFields_written present scalars writable apart enough 989 []
  rw [shape] at inside text
  have start : skipSpace ('\x7b' :: '"' :: (cs ++ ['\x7d'])) = '\x7b' :: '"' :: (cs ++ ['\x7d']) :=
    (skipSpace_cons rfl _).1
  have whole : readText ('\x7b' :: '"' :: (cs ++ ['\x7d'])) = .ok (.obj fields) := by
    have length : ('\x7b' :: '"' :: (cs ++ ['\x7d'])).length = cs.length + 3 := by simp
    have head : ('\x7b' :: '"' :: (cs ++ ['\x7d'])).head? ≠ some '\ufeff' := by simp
    rw [readText, if_neg head]
    simp only [start, length, deepest, readValue_object]
    simp only [List.cons_append] at inside
    rw [inside]
    rfl
  rw [read, text]
  simp only [List.cons_append, whole]
  rfl

instance (value : Value) : Decidable (IsScalar value) :=
  match value with
  | .null | .bool _ | .int _ | .str _ => .isTrue trivial
  | .float _ | .arr _ | .obj _ => .isFalse id

def IsFlat (fields : Fields) : Prop :=
  fields ≠ [] ∧ (∀ field ∈ fields, IsScalar field.2) ∧ isWritable (.obj fields) = true ∧
    (fields.map (·.1)).Nodup

instance (fields : Fields) : Decidable (IsFlat fields) := inferInstanceAs (Decidable (_ ∧ _))

theorem IsFlat.read_write {fields : Fields} (flat : IsFlat fields) :
    read (write (.obj fields)) = .ok (.obj fields) := by
  obtain ⟨present, scalars, writable, distinct⟩ := flat
  exact Json.read_write present scalars writable distinct

theorem read_write_of_readText {value : Value} (known : readText (written value) = .ok value) :
    read (write value) = .ok value := by
  rw [read, write, String.toList_ofList, known]
  rfl

end HarvestPlan.Json
