import HarvestPlan.Proofs.Path.Trimmed
import HarvestPlan.Text.Digit

namespace HarvestPlan.Text

inductive SpellsDigits : List Char → List Nat → Prop
  | last {c : Char} {d : Nat} (digit : digitValue? c = some d) : SpellsDigits [c] [d]
  | next {c : Char} {d : Nat} {cs : List Char} {ds : List Nat} (digit : digitValue? c = some d)
      (rest : SpellsDigits cs ds) : SpellsDigits (c :: cs) (d :: ds)
  | separated {c : Char} {d : Nat} {cs : List Char} {ds : List Nat} (digit : digitValue? c = some d)
      (rest : SpellsDigits cs ds) : SpellsDigits (c :: '_' :: cs) (d :: ds)

/-- A natural number with no more digits than a text may have, leading zeros included. -/
def SpellsNatural (cs : List Char) (n : Nat) : Prop :=
  ∃ ds, SpellsDigits cs ds ∧ ds.length ≤ maxIntegerDigits ∧ ofDigits ds = n

inductive SpellsSigned : List Char → Int → Prop
  | plain {cs : List Char} {n : Nat} (spells : SpellsNatural cs n) : SpellsSigned cs n
  | plus {cs : List Char} {n : Nat} (spells : SpellsNatural cs n) : SpellsSigned ('+' :: cs) n
  | minus {cs : List Char} {n : Nat} (spells : SpellsNatural cs n) : SpellsSigned ('-' :: cs) (-n)

def SpellsInteger (text : String) (n : Int) : Prop :=
  ∃ core, Surrounds isIntegerBlank core text.toList ∧ SpellsSigned core n

variable {cs : List Char} {ds : List Nat} {c : Char} {d : Nat}

theorem SpellsDigits.head (spells : SpellsDigits cs ds) :
    ∃ c rest, cs = c :: rest ∧ isDigit c = true := by
  cases spells with
  | last digit | next digit _ | separated digit _ => exact ⟨_, _, rfl, by simp [isDigit, digit]⟩

theorem digitValue_underscore : digitValue? '_' = none := by decide

theorem digitValues_cons (digit : digitValue? c = some d) (spells : SpellsDigits cs ds) :
    digitValues? (c :: cs) = (digitValues? cs).map (d :: ·) := by
  obtain ⟨first, rest, rfl, isFirst⟩ := spells.head
  have other : first ≠ '_' := by
    rintro rfl
    simp [isDigit, digitValue_underscore] at isFirst
  rw [digitValues?, digit]
  · cases digitValues? (first :: rest) <;> rfl
  · nofun
  · rintro more same
    exact other (List.cons.inj same).1

theorem digitValues_eq_some_iff : digitValues? cs = some ds ↔ SpellsDigits cs ds := by
  constructor
  · intro read
    fun_induction digitValues? cs generalizing ds with
    | case1 => cases read
    | case2 c =>
      obtain ⟨d, digit, rfl⟩ := Option.map_eq_some_iff.mp read
      exact .last digit
    | case3 c rest ih =>
      obtain ⟨d, digit, read⟩ := Option.bind_eq_some_iff.mp read
      obtain ⟨others, later, same⟩ := Option.bind_eq_some_iff.mp read
      cases same
      exact .separated digit (ih later)
    | case4 c rest _ _ ih =>
      obtain ⟨d, digit, read⟩ := Option.bind_eq_some_iff.mp read
      obtain ⟨others, later, same⟩ := Option.bind_eq_some_iff.mp read
      cases same
      exact .next digit (ih later)
  · intro spells
    induction spells with
    | last digit => simp [digitValues?, digit]
    | next digit rest ih => rw [digitValues_cons digit rest, ih, Option.map_some]
    | separated digit rest ih => simp [digitValues?, digit, ih]

theorem unsigned_eq_some_iff {n : Nat} : unsigned? cs = some n ↔ SpellsNatural cs n := by
  unfold unsigned? SpellsNatural
  simp only [← digitValues_eq_some_iff]
  cases digitValues? cs with
  | none => simp
  | some ds => by_cases short : ds.length ≤ maxIntegerDigits <;> simp [short]

theorem digitZeros_apart : ∀ first ∈ digitZeros, ∀ range ∈ blankRanges,
    range.2 < first ∨ first + 10 ≤ range.1 := by decide +kernel

theorem isIntegerBlank_of_isDigit (digit : isDigit c = true) : isIntegerBlank c = false := by
  obtain ⟨d, value⟩ := Option.isSome_iff_exists.mp digit
  obtain ⟨first, found, -⟩ := Option.map_eq_some_iff.mp value
  have bounds := List.find?_some found
  have notBlank : isBlank c = false := by
    apply Bool.eq_false_iff.mpr
    intro blank
    obtain ⟨range, present, inside⟩ := List.any_eq_true.mp blank
    have apart := digitZeros_apart first (List.mem_of_find?_eq_some found) range present
    simp only [Bool.and_eq_true, decide_eq_true_eq] at bounds inside
    omega
  simp [isIntegerBlank, notBlank]

theorem SpellsDigits.isTrimmed (spells : SpellsDigits cs ds) : IsTrimmed isIntegerBlank cs := by
  constructor
  · intro c first
    obtain ⟨head, rest, rfl, digit⟩ := spells.head
    cases first
    exact isIntegerBlank_of_isDigit digit
  · induction spells with
    | last digit =>
      intro c last
      cases last
      exact isIntegerBlank_of_isDigit (by simp [isDigit, digit])
    | next _ rest ih | separated _ rest ih =>
      obtain ⟨head, others, rfl, -⟩ := rest.head
      simpa [List.getLast?_cons_cons] using ih

theorem IsTrimmed.cons (trimmed : IsTrimmed isIntegerBlank cs) (first : isIntegerBlank c = false) :
    IsTrimmed isIntegerBlank (c :: cs) := by
  constructor
  · rintro _ ⟨⟩
    exact first
  · cases cs with
    | nil =>
      rintro _ ⟨⟩
      exact first
    | cons d rest => simpa [List.getLast?_cons_cons] using trimmed.ends

theorem SpellsSigned.isTrimmed {n : Int} (spells : SpellsSigned cs n) :
    IsTrimmed isIntegerBlank cs := by
  cases spells with
  | plain spells => exact spells.choose_spec.1.isTrimmed
  | plus spells | minus spells => exact spells.choose_spec.1.isTrimmed.cons (by decide)

theorem unsigned_lifted_iff {m : Int} :
    (do let n ← unsigned? cs; pure (n : Int)) = some m ↔ ∃ n : Nat, SpellsNatural cs n ∧ n = m := by
  simp only [← unsigned_eq_some_iff]
  cases unsigned? cs <;> simp

theorem integer_eq_some_iff {text : String} {n : Int} :
    integer? text = some n ↔ SpellsInteger text n := by
  constructor
  · intro read
    refine ⟨trim isIntegerBlank text.toList, trim_surrounds _ _, ?_⟩
    unfold integer? at read
    split at read
    · rename_i shape
      obtain ⟨m, lifted, rfl⟩ := Option.map_eq_some_iff.mp read
      obtain ⟨n, spells, rfl⟩ := unsigned_lifted_iff.mp lifted
      exact shape ▸ .minus spells
    · rename_i shape
      obtain ⟨m, lifted, rfl⟩ := Option.map_eq_some_iff.mp read
      obtain ⟨n, spells, rfl⟩ := unsigned_lifted_iff.mp lifted
      exact shape ▸ .plus spells
    · obtain ⟨m, lifted, rfl⟩ := Option.map_eq_some_iff.mp read
      obtain ⟨n, spells, rfl⟩ := unsigned_lifted_iff.mp lifted
      exact .plain spells
  · rintro ⟨core, around, spells⟩
    unfold integer?
    rw [trim_of_surrounds spells.isTrimmed around]
    cases spells with
    | minus spells | plus spells => simp [unsigned_eq_some_iff.mpr spells]
    | plain spells =>
      obtain ⟨first, rest, rfl, digit⟩ := spells.choose_spec.1.head
      split
      · simp_all [isDigit, show digitValue? '-' = none by decide]
      · simp_all [isDigit, show digitValue? '+' = none by decide]
      · rw [unsigned_eq_some_iff.mpr spells]
        rfl

end HarvestPlan.Text
