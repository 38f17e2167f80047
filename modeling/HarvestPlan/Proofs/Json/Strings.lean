import HarvestPlan.Json.Reader
import HarvestPlan.Json.Writer

namespace HarvestPlan.Json

theorem hexValue_hexDigit : ∀ d < 16, Text.hexValue? (Text.hexDigit d) = some d := by decide +kernel

theorem unit_hexDigits {unit : Nat} (fits : unit < 0x10000) :
    ∃ a b c d, Text.hexDigits 4 unit = [a, b, c, d] ∧ unit? a b c d = some unit := by
  refine ⟨_, _, _, _, rfl, ?_⟩
  have first := hexValue_hexDigit (unit / 16 / 16 / 16 % 16) (Nat.mod_lt _ (by decide))
  have second := hexValue_hexDigit (unit / 16 / 16 % 16) (Nat.mod_lt _ (by decide))
  have third := hexValue_hexDigit (unit / 16 % 16) (Nat.mod_lt _ (by decide))
  have last := hexValue_hexDigit (unit % 16) (Nat.mod_lt _ (by decide))
  have value : ((unit / 16 / 16 / 16 % 16 * 16 + unit / 16 / 16 % 16) * 16 + unit / 16 % 16) * 16 +
      unit % 16 = unit := by omega
  simp only [unit?, first, second, third, last, bind, Option.bind, pure, value]

theorem stringTail_plain {opening : Nat} {c : Char} (notQuote : c ≠ '"') (notEscape : c ≠ '\\')
    (visible : ¬ c < ' ') (rest : List Char) :
    stringTail opening (c :: rest) =
      (stringTail opening rest).map fun (cs, left) => (c :: cs, left) := by
  rw [stringTail.eq_def]
  split <;> grind

theorem stringTail_escape {opening : Nat} {mark c : Char} (escape : plainEscape? mark = some c)
    (rest : List Char) :
    stringTail opening ('\\' :: mark :: rest) =
      (stringTail opening rest).map fun (cs, left) => (c :: cs, left) := by
  have notUnit : mark ≠ 'u' := by
    rintro rfl
    simp [plainEscape?] at escape
  rw [stringTail.eq_def]
  split <;> grind

theorem stringTail_unit (opening : Nat) {a b c d : Char} {unit : Nat}
    (value : unit? a b c d = some unit) (notHigh : isHighUnit unit = false) {rest : List Char}
    (more : rest ≠ []) :
    stringTail opening ('\\' :: 'u' :: a :: b :: c :: d :: rest) =
      (stringTail opening rest).map fun (cs, left) => (unitChar unit :: cs, left) := by
  obtain ⟨after, rest, rfl⟩ := List.exists_cons_of_ne_nil more
  rw [stringTail.eq_def]
  split <;> grind

theorem stringTail_pair (opening : Nat) {a b c d e f g h : Char} {high low : Nat}
    (first : unit? a b c d = some high) (isHigh : isHighUnit high = true)
    (second : unit? e f g h = some low) (isLow : isLowUnit low = true) {rest : List Char}
    (more : rest ≠ []) :
    stringTail opening ('\\' :: 'u' :: a :: b :: c :: d :: '\\' :: 'u' :: e :: f :: g :: h :: rest) =
      (stringTail opening rest).map fun (cs, left) => (joinUnits high low :: cs, left) := by
  obtain ⟨after, rest, rfl⟩ := List.exists_cons_of_ne_nil more
  rw [stringTail.eq_def]
  split <;> grind

theorem isUnit_toNat (c : Char) (small : c.toNat < 0x10000) :
    isHighUnit c.toNat = false ∧ unitChar c.toNat = c := by
  have valid : c.toNat < 0xd800 ∨ 0xdfff < c.toNat ∧ c.toNat < 0x110000 := c.valid
  have notHigh : isHighUnit c.toNat = false := by
    simp only [isHighUnit, Bool.and_eq_false_iff, decide_eq_false_iff_not]
    omega
  have notLow : isLowUnit c.toNat = false := by
    simp only [isLowUnit, Bool.and_eq_false_iff, decide_eq_false_iff_not]
    omega
  refine ⟨notHigh, ?_⟩
  simp [unitChar, notHigh, notLow, Char.ofNat_toNat]

theorem joinUnits_codeUnits (c : Char) (large : 0x10000 ≤ c.toNat) :
    let high := 0xd800 + (c.toNat - 0x10000) / 0x400
    let low := 0xdc00 + (c.toNat - 0x10000) % 0x400
    high < 0x10000 ∧ low < 0x10000 ∧ isHighUnit high = true ∧ isLowUnit low = true ∧
      joinUnits high low = c := by
  intro high low
  have valid : c.toNat < 0xd800 ∨ 0xdfff < c.toNat ∧ c.toNat < 0x110000 := c.valid
  have rest : (c.toNat - 0x10000) % 0x400 < 0x400 := Nat.mod_lt _ (by decide)
  have whole : 0x10000 + (high - 0xd800) * 0x400 + (low - 0xdc00) = c.toNat := by omega
  refine ⟨by omega, by omega, ?_, ?_, ?_⟩
  · simp only [isHighUnit, Bool.and_eq_true, decide_eq_true_eq]
    omega
  · simp only [isLowUnit, Bool.and_eq_true, decide_eq_true_eq]
    omega
  · rw [joinUnits, whole, Char.ofNat_toNat]

theorem stringTail_escapedChar {opening : Nat} (c : Char) {rest : List Char} (more : rest ≠ []) :
    stringTail opening (escapedChar c ++ rest) =
      (stringTail opening rest).map fun (cs, left) => (c :: cs, left) := by
  unfold escapedChar
  split
  · exact stringTail_escape rfl rest
  · exact stringTail_escape rfl rest
  · exact stringTail_escape rfl rest
  · exact stringTail_escape rfl rest
  · exact stringTail_escape rfl rest
  · exact stringTail_escape rfl rest
  · exact stringTail_escape rfl rest
  · rename_i notQuote notEscape _ _ _ _ _
    split
    · rename_i visible
      refine stringTail_plain notQuote notEscape ?_ rest
      intro control
      have below : c.toNat < 32 := control
      omega
    · by_cases small : c.toNat < 0x10000
      · obtain ⟨a, b, d, e, digits, value⟩ := unit_hexDigits small
        obtain ⟨notHigh, same⟩ := isUnit_toNat c small
        have step := stringTail_unit opening value notHigh more
        simpa [codeUnits, small, unitEscape, digits, same] using step
      · obtain ⟨highFits, lowFits, isHigh, isLow, same⟩ :=
          joinUnits_codeUnits c (Nat.le_of_not_lt small)
        obtain ⟨a, b, d, e, digits, value⟩ := unit_hexDigits highFits
        obtain ⟨f, g, h, i, others, otherValue⟩ := unit_hexDigits lowFits
        have step := stringTail_pair opening value isHigh otherValue isLow more
        simpa [codeUnits, small, unitEscape, digits, others, same] using step

theorem stringTail_written (opening : Nat) (cs left : List Char) :
    stringTail opening (cs.flatMap escapedChar ++ '"' :: left) = .ok (cs, left) := by
  induction cs with
  | nil => simp [stringTail]
  | cons c cs ih =>
    rw [List.flatMap_cons, List.append_assoc, stringTail_escapedChar c (by simp), ih]
    rfl

theorem readString_written (s : String) (left : List Char) :
    readString (s.toList.flatMap escapedChar ++ '"' :: left) = .ok (s, left) := by
  rw [readString, stringTail_written]
  simp [Except.map]

end HarvestPlan.Json
