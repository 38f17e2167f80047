import HarvestPlan.Json.Reader
import HarvestPlan.Json.Writer

namespace HarvestPlan.Json

def EndsNumber (rest : List Char) : Prop :=
  ∀ c, rest.head? = some c → c.isDigit = false ∧ c ≠ '.' ∧ c ≠ 'e' ∧ c ≠ 'E'

theorem takeDigits_append {digits rest : List Char} (all : ∀ c ∈ digits, c.isDigit = true)
    (ends : EndsNumber rest) : takeDigits (digits ++ rest) = (digits, rest) := by
  have stops : rest.takeWhile Char.isDigit = [] ∧ rest.dropWhile Char.isDigit = rest := by
    cases rest with
    | nil => exact ⟨rfl, rfl⟩
    | cons c cs =>
      have notDigit := (ends c rfl).1
      simp [notDigit]
  simp [takeDigits, List.takeWhile_append_of_pos all, List.dropWhile_append_of_pos all, stops]

theorem head_toDigits {n : Nat} (positive : n ≠ 0) : (Nat.toDigits 10 n).head? ≠ some '0' := by
  induction n using Nat.strongRecOn with
  | _ n ih =>
    have recursion := Nat.toDigits_eq_if (n := n) (b := 10) (by decide)
    rw [recursion]
    split
    · simpa using positive
    · have smaller : n / 10 < n := by omega
      have head := ih (n / 10) smaller (by omega)
      obtain ⟨c, cs, shape⟩ := List.exists_cons_of_ne_nil
        (Nat.toDigits_ne_nil (n := n / 10) (b := 10))
      rw [shape] at head ⊢
      exact head

theorem takeWhole_toDigits (n : Nat) {rest : List Char} (ends : EndsNumber rest) :
    takeWhole (Nat.toDigits 10 n ++ rest) = some (Nat.toDigits 10 n, rest) := by
  by_cases zero : n = 0
  · subst zero
    simp [takeWhole]
  · have all : ∀ c ∈ Nat.toDigits 10 n, c.isDigit = true := fun c present =>
      Nat.isDigit_of_mem_toDigits (by decide) (by decide) present
    have taken := takeDigits_append all ends
    have head := head_toDigits zero
    obtain ⟨c, cs, shape⟩ := List.exists_cons_of_ne_nil (Nat.toDigits_ne_nil (n := n) (b := 10))
    rw [shape] at taken head ⊢
    have other : c ≠ '0' := by simpa using head
    unfold takeWhole
    split
    · simp_all
    · simp only [taken]

theorem digitsValue_toDigits (n : Nat) : digitsValue (Nat.toDigits 10 n) = n := by
  have value : ∀ (ds : List Char) (start : Nat),
      (ds.map fun c => c.toNat - '0'.toNat).foldl (fun n d => 10 * n + d) start =
        Nat.ofDigitChars 10 ds start := by
    intro ds start
    rw [Nat.ofDigitChars_eq_foldl, List.foldl_map]
  rw [digitsValue, Text.ofDigits, value, Nat.ofDigitChars_ten_toDigits]

theorem numberOf_toDigits (negative : Bool) {n : Nat}
    (short : (Nat.toDigits 10 n).length ≤ Text.maxIntegerDigits) {rest : List Char} (ends : EndsNumber rest) :
    numberOf negative (Nat.toDigits 10 n) rest =
      .ok (.int (Binary64.withSign negative n), rest) := by
  have fraction : takeFraction rest = ([], rest) := by
    cases rest with
    | nil => rfl
    | cons c cs =>
      have other := (ends c rfl).2.1
      unfold takeFraction
      split <;> simp_all
  have exponent : takeExponent rest = none := by
    cases rest with
    | nil => rfl
    | cons c cs =>
      have other := (ends c rfl).2.2
      simp [takeExponent, other]
  have fits : ¬ Text.maxIntegerDigits < (Nat.toDigits 10 n).length := by omega
  simp only [numberOf, fraction, exponent, fits, if_false, digitsValue_toDigits]

theorem readNumber_toDigits (negative : Bool) {n : Nat}
    (short : (Nat.toDigits 10 n).length ≤ Text.maxIntegerDigits) (start : List Char) {rest : List Char} (ends : EndsNumber rest) :
    readNumber negative start (Nat.toDigits 10 n ++ rest) =
      .ok (.int (Binary64.withSign negative n), rest) := by
  rw [readNumber, takeWhole_toDigits n ends]
  exact numberOf_toDigits negative short ends

theorem readName_digit {c : Char} (digit : c.isDigit = true) (rest : List Char) :
    readName? (c :: rest) = none ∧ readName? ('-' :: c :: rest) = none := by
  have other : ∀ d : Char, d.isDigit = false → (d == c) = false := by
    intro d notDigit
    rw [beq_eq_false_iff_ne]
    rintro rfl
    rw [digit] at notDigit
    cases notDigit
  have absent : ∀ cs, (∀ field ∈ names, field.1.toList.isPrefixOf cs = false) →
      readName? cs = none := by
    intro cs each
    refine List.findSome?_eq_none_iff.mpr ?_
    intro field present
    simp [each field present]
  constructor
  · refine absent _ ?_
    intro field present
    simp only [names, List.mem_cons, List.not_mem_nil, or_false] at present
    rcases present with rfl | rfl | rfl | rfl | rfl | rfl
    · exact congrArg (· && _) (other 'n' rfl)
    · exact congrArg (· && _) (other 't' rfl)
    · exact congrArg (· && _) (other 'f' rfl)
    · exact congrArg (· && _) (other 'N' rfl)
    · exact congrArg (· && _) (other 'I' rfl)
    · exact congrArg (· && _) (other '-' rfl)
  · refine absent _ ?_
    intro field present
    simp only [names, List.mem_cons, List.not_mem_nil, or_false] at present
    rcases present with rfl | rfl | rfl | rfl | rfl | rfl
    · rfl
    · rfl
    · rfl
    · rfl
    · rfl
    · exact congrArg (· && _) (other 'I' rfl)

theorem readScalar_digit {c : Char} (digit : c.isDigit = true) (rest : List Char) :
    readScalar (c :: rest) = readNumber false (c :: rest) (c :: rest) ∧
      readScalar ('-' :: c :: rest) = readNumber true ('-' :: c :: rest) (c :: rest) := by
  obtain ⟨plain, signed⟩ := readName_digit digit rest
  constructor
  · unfold readScalar
    simp only [plain]
    split
    · rename_i minus
      rw [(List.cons.inj minus).1] at digit
      cases digit
    · rfl
  · unfold readScalar
    simp only [signed]

theorem toDigits_cons (n : Nat) :
    ∃ c cs, Nat.toDigits 10 n = c :: cs ∧ c.isDigit = true := by
  obtain ⟨c, cs, shape⟩ := List.exists_cons_of_ne_nil (Nat.toDigits_ne_nil (n := n) (b := 10))
  have digit : ∀ d ∈ Nat.toDigits 10 n, d.isDigit = true := fun d present =>
    Nat.isDigit_of_mem_toDigits (by decide) (by decide) present
  exact ⟨c, cs, shape, digit c (by simp [shape])⟩

theorem toString_toList (i : Int) :
    (toString i).toList = if 0 ≤ i then Nat.toDigits 10 i.natAbs
      else '-' :: Nat.toDigits 10 i.natAbs := by
  rw [Int.toString_eq_repr, Int.repr_eq_if]
  by_cases positive : 0 ≤ i
  · have same : i.toNat = i.natAbs := by omega
    simp only [positive, if_true, Nat.toList_repr, same]
  · have same : (-i).toNat = i.natAbs := by omega
    simp only [positive, if_false, String.toList_append, Nat.toList_repr, same]
    rfl

theorem readScalar_int {i : Int}
    (short : (Nat.toDigits 10 i.natAbs).length ≤ Text.maxIntegerDigits) {rest : List Char} (ends : EndsNumber rest) :
    readScalar ((toString i).toList ++ rest) = .ok (.int i, rest) := by
  rw [toString_toList]
  obtain ⟨c, cs, shape, digit⟩ := toDigits_cons i.natAbs
  by_cases positive : 0 ≤ i
  · have value : Binary64.withSign false i.natAbs = i := by
      simp only [Binary64.withSign, Bool.false_eq_true, if_false]
      omega
    have read := readNumber_toDigits false short (Nat.toDigits 10 i.natAbs ++ rest) ends
    rw [value] at read
    rw [if_pos positive]
    rw [shape] at read ⊢
    exact (readScalar_digit digit _).1.trans read
  · have value : Binary64.withSign true i.natAbs = i := by
      simp only [Binary64.withSign, if_true]
      omega
    have read :=
      readNumber_toDigits true short ('-' :: (Nat.toDigits 10 i.natAbs ++ rest)) ends
    rw [value] at read
    rw [if_neg positive]
    rw [shape] at read ⊢
    exact (readScalar_digit digit _).2.trans read

end HarvestPlan.Json
