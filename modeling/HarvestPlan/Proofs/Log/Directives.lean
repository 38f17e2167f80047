import Mathlib.Data.List.TakeWhile
import HarvestPlan.Log.Template
import HarvestPlan.Proofs.Lists

namespace HarvestPlan.Template

def isDirectiveChar (c : Char) : Bool :=
  c.isDigit || ['-', '+', ' ', '#', '.', '*', 'h', 'l', 'L', 's', 'r', 'a', 'c'].contains c

/-- The reader takes characters of a directive up to one that it leaves, and does not look further. -/
def IsLocal {α : Type} (read : List Char → α × List Char) : Prop :=
  ∀ cs a c rest, read cs = (a, c :: rest) → ∃ taken, cs = taken ++ c :: rest ∧
    (∀ d ∈ taken, isDirectiveChar d = true) ∧ ∀ other, read (taken ++ c :: other) = (a, c :: other)

variable {α β : Type} {cs before after rest filler : List Char} {ds : List Directive} {c : Char}

theorem IsLocal.bind {read : List Char → α × List Char} {next : α → List Char → β × List Char}
    (first : IsLocal read) (second : ∀ a, IsLocal (next a)) :
    IsLocal fun cs => next (read cs).1 (read cs).2 := by
  intro cs b c rest done
  obtain ⟨last, shape, allLast, same⟩ := second _ _ _ _ _ done
  -- What the first reader leaves begins with the same character, whatever follows `c`.
  obtain ⟨d, tail, opens⟩ : ∃ (d : Char) (tail : List Char → List Char),
      ∀ other, last ++ c :: other = d :: tail other := by
    cases last with
    | nil => exact ⟨c, id, fun _ => rfl⟩
    | cons d last => exact ⟨d, fun other => last ++ c :: other, fun _ => rfl⟩
  obtain ⟨taken, whole, allTaken, sameFirst⟩ :=
    first cs _ d (tail rest) (Prod.ext rfl (shape.trans (opens rest)))
  refine ⟨taken ++ last, ?_, ?_, fun other => ?_⟩
  · rw [whole, List.append_assoc, opens]
  · exact fun d present => (List.mem_append.mp present).elim (allTaken d) (allLast d)
  · dsimp only
    rw [List.append_assoc, opens, sameFirst (tail other), ← opens]
    exact same other

theorem readFlags_isLocal (flags : Flags) : IsLocal (readFlags flags) := by
  intro cs a c rest done
  fun_induction readFlags flags cs with
  | case6 flags cs minus plus blank alternate zeros =>
    cases done
    refine ⟨[], rfl, nofun, fun other => ?_⟩
    rw [List.nil_append, readFlags]
    all_goals
      intro _ same
      cases same
    · exact minus _ rfl
    · exact plus _ rfl
    · exact blank _ rfl
    · exact alternate _ rfl
    · exact zeros _ rfl
  | _ flags cs ih =>
    obtain ⟨taken, rfl, all, same⟩ := ih done
    exact ⟨_ :: taken, rfl, List.forall_mem_cons.mpr ⟨by decide, all⟩, same⟩

theorem readWidth_span {digits : List Char} (all : ∀ d ∈ digits, d.isDigit = true)
    (stops : ∀ d, rest.head? = some d → d.isDigit = false)
    (opens : (digits ++ rest).head? ≠ some '*') : readWidth (digits ++ rest) =
      (if digits = [] then none else some (.given (Text.decimalValue digits)), rest) := by
  unfold readWidth
  split
  · rename_i shape
    simp [shape] at opens
  · rw [Lists.takeWhile_span all stops, Lists.dropWhile_span all stops]
    cases digits with
    | nil => rfl
    | cons d digits => rfl

theorem readWidth_isLocal : IsLocal readWidth := by
  intro cs a c rest done
  by_cases star : cs.head? = some '*'
  · obtain ⟨cs, rfl⟩ := List.head?_eq_some_iff.mp star
    cases done
    exact ⟨['*'], rfl, List.forall_mem_singleton.mpr rfl, fun _ => rfl⟩
  · have parts := List.takeWhile_append_dropWhile (p := Char.isDigit) (l := cs)
    have all : ∀ d ∈ cs.takeWhile Char.isDigit, d.isDigit = true := fun d => List.mem_takeWhile_imp
    have ends := List.head?_dropWhile_not Char.isDigit cs
    generalize cs.takeWhile Char.isDigit = digits at parts all
    generalize cs.dropWhile Char.isDigit = left at parts ends
    subst parts
    have stops : ∀ d, left.head? = some d → d.isDigit = false := by
      intro d first
      rw [first] at ends
      simpa using ends
    rw [readWidth_span all stops star] at done
    cases done
    refine ⟨digits, rfl, fun d present => ?_, fun other => readWidth_span all ?_ ?_⟩
    · rw [isDirectiveChar, all d present, Bool.true_or]
    · rintro _ ⟨⟩
      exact stops c rfl
    · cases digits with
      | nil => exact star
      | cons d digits => exact star

theorem readPrecision_isLocal : IsLocal readPrecision := by
  intro cs a c rest done
  by_cases point : cs.head? = some '.'
  · obtain ⟨cs, rfl⟩ := List.head?_eq_some_iff.mp point
    have read : readPrecision ('.' :: cs) =
        (some ((readWidth cs).1.getD (.given 0)), (readWidth cs).2) := rfl
    obtain ⟨rfl, left⟩ := Prod.mk.inj (read.symm.trans done)
    obtain ⟨taken, shape, all, same⟩ := readWidth_isLocal cs _ c rest (Prod.ext rfl left)
    refine ⟨'.' :: taken, congrArg ('.' :: ·) shape, List.forall_mem_cons.mpr ⟨by decide, all⟩,
      fun other => ?_⟩
    rw [List.cons_append, readPrecision, same other]
  · have unread : ∀ {cs : List Char}, cs.head? ≠ some '.' → readPrecision cs = (none, cs) := by
      intro cs other
      unfold readPrecision
      split
      · exact absurd rfl other
      · rfl
    rw [unread point] at done
    cases done
    exact ⟨[], rfl, nofun, fun other => unread point⟩

theorem skipLength_isLocal : IsLocal fun cs => ((), skipLength cs) := by
  intro cs a c rest done
  have left : skipLength cs = c :: rest := congrArg Prod.snd done
  cases cs with
  | nil => cases left
  | cons d cs =>
    rw [skipLength] at left
    split at left
    · rename_i length
      subst left
      refine ⟨[d], rfl, ?_, fun other => ?_⟩
      · rcases length with rfl | rfl | rfl <;> exact List.forall_mem_singleton.mpr rfl
      · show ((), if _ then c :: other else _) = _
        rw [if_pos length]
    · rename_i noLength
      cases left
      refine ⟨[], rfl, nofun, fun other => ?_⟩
      show ((), if _ then other else c :: other) = _
      rw [if_neg noLength]

def readBody (cs : List Char) : (Flags × Option Extent × Option Extent) × List Char :=
  let (flags, cs) := readFlags ⟨false, false, false, false, false⟩ cs
  let (width, cs) := readWidth cs
  let (precision, cs) := readPrecision cs
  ((flags, width, precision), skipLength cs)

theorem IsLocal.map {read : List Char → α × List Char} (isLocal : IsLocal read) (f : α → β) :
    IsLocal fun cs => (f (read cs).1, (read cs).2) := by
  intro cs b c rest done
  obtain ⟨rfl, left⟩ := Prod.mk.inj done
  obtain ⟨taken, shape, all, same⟩ := isLocal cs _ c rest (Prod.ext rfl left)
  refine ⟨taken, shape, all, fun other => ?_⟩
  dsimp only
  rw [same other]

theorem readBody_isLocal : IsLocal readBody :=
  (readFlags_isLocal _).bind fun flags =>
    readWidth_isLocal.bind fun width =>
      readPrecision_isLocal.bind fun precision =>
        skipLength_isLocal.map fun _ => (flags, width, precision)

theorem readDirective_eq (unnamed : cs.head? ≠ some '(') : readDirective? cs =
    match (readBody cs).2 with
    | [] => none
    | conversion :: rest =>
      let (flags, width, precision) := (readBody cs).1
      some (⟨none, flags, width, precision, conversion⟩, rest) := by
  have key : readOptionalKey? cs = some (none, cs) := by
    unfold readOptionalKey?
    split
    · exact absurd rfl unnamed
    · rfl
  rw [readDirective?, key]
  rfl

structure Spells (spelling : List Char) (d : Directive) : Prop where
  reads : ∀ rest, readDirective? (spelling ++ rest) = some (d, rest)
  plain : ∀ c ∈ spelling, isDirectiveChar c = true

theorem unnamed_of_read {d : Directive} (read : readDirective? cs = some (d, rest))
    (unnamed : d.key = none) : cs.head? ≠ some '(' := by
  intro opens
  obtain ⟨cs, rfl⟩ := List.head?_eq_some_iff.mp opens
  obtain ⟨⟨key, left⟩, named, read⟩ := Option.bind_eq_some_iff.mp read
  obtain ⟨found, -, same⟩ := Option.map_eq_some_iff.mp named
  cases same
  dsimp only at read
  split at read
  · cases read
  · cases read
    cases unnamed

theorem exists_spelling {d : Directive} (read : readDirective? cs = some (d, rest))
    (unnamed : d.key = none) (plain : isDirectiveChar d.conversion = true) :
    ∃ spelling, cs = spelling ++ rest ∧ Spells spelling d := by
  rw [readDirective_eq (unnamed_of_read read unnamed)] at read
  generalize body : readBody cs = parts at read
  obtain ⟨⟨flags, width, precision⟩, left⟩ := parts
  cases left with
  | nil => cases read
  | cons conversion left =>
    cases read
    obtain ⟨taken, rfl, all, same⟩ := readBody_isLocal cs _ _ _ body
    have allPlain : ∀ c ∈ taken ++ [conversion], isDirectiveChar c = true := fun c present =>
      (List.mem_append.mp present).elim (all c) fun last => by rwa [List.mem_singleton.mp last]
    refine ⟨taken ++ [conversion], by simp, fun other => ?_, allPlain⟩
    have opens : (taken ++ [conversion] ++ other).head? ≠ some '(' := by
      intro opens
      have first : '(' ∈ taken ++ [conversion] := by
        apply List.mem_of_head?
        cases taken <;> exact opens
      exact absurd (allPlain '(' first) (by decide)
    rw [readDirective_eq opens, List.append_assoc, List.singleton_append, same other]

def Piece.directive? : Piece → Option Directive
  | .literal _ => none
  | .directive d => some d

def directives (pieces : List Piece) : List Directive := pieces.filterMap Piece.directive?

inductive IsTemplate : List Char → List Directive → Prop
  | done : IsTemplate [] []
  | percent {cs : List Char} {ds : List Directive} (rest : IsTemplate cs ds) :
      IsTemplate ('%' :: '%' :: cs) ds
  | directive {spelling cs : List Char} {d : Directive} {ds : List Directive} (spells : Spells spelling d)
      (rest : IsTemplate cs ds) : IsTemplate ('%' :: (spelling ++ cs)) (d :: ds)
  | literal {c : Char} {cs : List Char} {ds : List Directive} (other : c ≠ '%')
      (rest : IsTemplate cs ds) : IsTemplate (c :: cs) ds

theorem isTemplate_of_read {steps : Nat} {pieces : List Piece}
    (read : readPieces? steps cs = some pieces)
    (plain : ∀ d ∈ directives pieces, d.key = none ∧ isDirectiveChar d.conversion = true) :
    IsTemplate cs (directives pieces) := by
  fun_induction readPieces? steps cs generalizing pieces with
  | case1 =>
    cases read
    exact .done
  | case2 => cases read
  | case3 steps cs ih =>
    obtain ⟨others, later, same⟩ := Option.bind_eq_some_iff.mp read
    cases same
    have told := ih later plain
    exact .percent told
  | case4 steps cs twice ih =>
    obtain ⟨⟨d, rest⟩, here, read⟩ := Option.bind_eq_some_iff.mp read
    obtain ⟨others, later, same⟩ := Option.bind_eq_some_iff.mp read
    cases same
    obtain ⟨first, rest⟩ := List.forall_mem_cons.mp plain
    obtain ⟨spelling, rfl, spells⟩ := exists_spelling here first.1 first.2
    exact .directive spells (ih _ later rest)
  | case5 steps c cs twice once ih =>
    obtain ⟨others, later, same⟩ := Option.bind_eq_some_iff.mp read
    cases same
    have told := ih later plain
    exact .literal (fun same => once same) told

theorem Spells.opens {spelling : List Char} {d : Directive} (spells : Spells spelling d) :
    ∃ c others, spelling = c :: others ∧ c ≠ '%' := by
  cases spelling with
  | nil => cases spells.reads []
  | cons c others =>
    refine ⟨c, others, rfl, ?_⟩
    rintro rfl
    exact absurd (spells.plain '%' List.mem_cons_self) (by decide)

theorem IsTemplate.read (isTemplate : IsTemplate cs ds) {steps : Nat} (enough : cs.length ≤ steps) :
    ∃ pieces, readPieces? steps cs = some pieces ∧ directives pieces = ds := by
  induction steps generalizing cs ds with
  | zero =>
    obtain rfl := List.eq_nil_of_length_eq_zero (Nat.le_zero.mp enough)
    cases isTemplate
    exact ⟨[], rfl, rfl⟩
  | succ steps ih =>
    cases isTemplate with
    | done => exact ⟨[], rfl, rfl⟩
    | percent rest =>
      rw [List.length_cons, List.length_cons] at enough
      obtain ⟨pieces, later, rfl⟩ := ih rest (by omega)
      refine ⟨.literal '%' :: pieces, ?_, rfl⟩
      rw [readPieces?, later]
      rfl
    | @directive spelling cs d ds spells rest =>
      rw [List.length_cons, List.length_append] at enough
      obtain ⟨pieces, later, rfl⟩ := ih rest (by omega)
      refine ⟨.directive d :: pieces, ?_, rfl⟩
      rw [readPieces?, spells.reads cs]
      · exact congrArg (Option.bind · _) later
      · -- It is not taken for a percent sign.
        obtain ⟨c, others, rfl, other⟩ := spells.opens
        rintro left same
        exact other (List.cons.inj same).1
    | @literal c cs ds other rest =>
      rw [List.length_cons] at enough
      obtain ⟨pieces, later, rfl⟩ := ih rest (by omega)
      refine ⟨.literal c :: pieces, ?_, rfl⟩
      rw [readPieces?, later]
      · rfl
      · rintro left same -
        exact other same
      · exact other

theorem IsTemplate.unique {ds others : List Directive} (one : IsTemplate cs ds)
    (two : IsTemplate cs others) : ds = others := by
  obtain ⟨pieces, read, rfl⟩ := one.read (Nat.le_refl _)
  obtain ⟨morePieces, again, rfl⟩ := two.read (Nat.le_refl _)
  rw [Option.some.inj (read.symm.trans again)]

/-- A directive begins in the text, at a percent sign that no second one follows. -/
def holdsDirective : List Char → Bool
  | [] => false
  | '%' :: '%' :: cs => holdsDirective cs
  | '%' :: _ => true
  | _ :: cs => holdsDirective cs

theorem holdsDirective_of_other (other : c ≠ '%') :
    holdsDirective (c :: cs) = holdsDirective cs := by
  rw [holdsDirective]
  · exact fun _ same _ => other same
  · exact other

theorem holdsDirective_of_percent (opens : ∀ c, cs.head? = some c → c ≠ '%') :
    holdsDirective ('%' :: cs) = true := by
  rw [holdsDirective]
  rintro rest rfl
  exact opens '%' rfl rfl

theorem isTemplate_cons_iff (other : c ≠ '%') : IsTemplate (c :: cs) ds ↔ IsTemplate cs ds := by
  constructor
  · intro isTemplate
    cases isTemplate with
    | percent | directive => exact absurd rfl other
    | literal _ rest => exact rest
  · exact .literal other

theorem isTemplate_append_iff (free : '%' ∉ filler) :
    IsTemplate (filler ++ cs) ds ↔ IsTemplate cs ds := by
  induction filler with
  | nil => rfl
  | cons c filler ih =>
    rw [List.mem_cons, not_or] at free
    exact (isTemplate_cons_iff (Ne.symm free.1)).trans (ih free.2)

/-- A place in a template stands between two of its pieces or within a directive. -/
inductive Splits (before after : List Char) (ds : List Directive) : Prop
  | between (front back : List Directive) (parts : ds = front ++ back) (behind : IsTemplate after back)
      (own : front = [] ↔ holdsDirective before = false)
      (again : ∀ cs ds, IsTemplate cs ds → IsTemplate (before ++ cs) (front ++ ds))
  | within (front back : List Directive) {d : Directive} {left rest : List Char}
      (parts : ds = front ++ d :: back) (shape : after = left ++ rest) (opened : left ≠ [])
      (plain : ∀ c ∈ left, isDirectiveChar c = true) (behind : IsTemplate rest back)
      (own : holdsDirective before = true)

theorem Splits.start (isTemplate : IsTemplate after ds) : Splits [] after ds :=
  .between [] ds rfl isTemplate (by simp [holdsDirective]) fun _ _ more => more

theorem Splits.percent (splits : Splits before after ds) : Splits ('%' :: '%' :: before) after ds := by
  cases splits with
  | between front back parts behind own again =>
    exact .between front back parts behind own fun cs ds more => .percent (again cs ds more)
  | within front back parts shape opened plain behind own =>
    exact .within front back parts shape opened plain behind own

theorem Splits.literal (splits : Splits before after ds) (other : c ≠ '%') :
    Splits (c :: before) after ds := by
  have same : holdsDirective (c :: before) = holdsDirective before := holdsDirective_of_other other
  cases splits with
  | between front back parts behind own again =>
    exact .between front back parts behind (same.symm ▸ own) fun cs ds more =>
      .literal other (again cs ds more)
  | within front back parts shape opened plain behind own =>
    exact .within front back parts shape opened plain behind (same.trans own)

theorem Spells.holds {spelling : List Char} {d : Directive} (spells : Spells spelling d)
    (whole : before ++ after = spelling ++ cs) : holdsDirective ('%' :: before) = true := by
  apply holdsDirective_of_percent
  intro c head
  obtain ⟨first, others, rfl, notPercent⟩ := spells.opens
  cases before with
  | nil => cases head
  | cons e before =>
    cases head
    rwa [(List.cons.inj whole).1]

theorem Splits.directive {spelling : List Char} {d : Directive} (splits : Splits before after ds)
    (spells : Spells spelling d) : Splits ('%' :: (spelling ++ before)) after (d :: ds) := by
  have holds : holdsDirective ('%' :: (spelling ++ before)) = true :=
    spells.holds (List.append_assoc spelling before after)
  cases splits with
  | between front back parts behind own again =>
    refine .between (d :: front) back (congrArg (d :: ·) parts) behind (by simp [holds])
      fun cs ds more => ?_
    rw [List.cons_append, List.append_assoc]
    exact .directive spells (again cs ds more)
  | within front back parts shape opened plain behind own =>
    exact .within (d :: front) back (congrArg (d :: ·) parts) shape opened plain behind holds

theorem IsTemplate.splits (isTemplate : IsTemplate (before ++ after) ds)
    (stops : after.head? ≠ some '%') : Splits before after ds := by
  generalize whole : before ++ after = text at isTemplate
  induction isTemplate generalizing before with
  | done =>
    obtain ⟨rfl, rfl⟩ := List.append_eq_nil_iff.mp whole
    exact .start .done
  | percent rest ih =>
    cases before with
    | nil => exact absurd (congrArg List.head? whole) stops
    | cons c before =>
      obtain ⟨rfl, inner⟩ := List.cons.inj whole
      cases before with
      | nil => exact absurd (congrArg List.head? inner) stops
      | cons e before =>
        obtain ⟨rfl, tail⟩ := List.cons.inj inner
        exact (ih tail).percent
  | @directive spelling cs d ds spells rest ih =>
    cases before with
    | nil => exact absurd (congrArg List.head? whole) stops
    | cons c before =>
      obtain ⟨rfl, inner⟩ := List.cons.inj whole
      rcases List.append_eq_append_iff.mp inner with ⟨left, rfl, shape⟩ | ⟨left, rfl, shape⟩
      · by_cases ended : left = []
        · subst ended
          obtain rfl : after = cs := shape
          rw [List.append_nil] at spells
          have splits := (Splits.start rest).directive spells
          rwa [List.append_nil] at splits
        · have plain : ∀ c ∈ left, isDirectiveChar c = true := fun c present =>
            spells.plain c (List.mem_append_right _ present)
          exact .within [] ds rfl shape ended plain rest (spells.holds inner)
      · exact (ih shape.symm).directive spells
  | @literal c cs ds other rest ih =>
    cases before with
    | nil =>
      obtain rfl := whole
      exact .start (.literal other rest)
    | cons e before =>
      obtain ⟨rfl, inner⟩ := List.cons.inj whole
      exact (ih inner).literal other

end HarvestPlan.Template
