import HarvestPlan.Log.Secret
import HarvestPlan.Proofs.Lists

/-!
How secrets are looked for. What stands after a name is an end of the text, a secret takes at least one
character, and a name that holds no `s` but at its beginning is not found across the beginning of
another.
-/
namespace HarvestPlan.Secret

variable {name : Name} {cs before after rest value : List Char}

theorem NamePart.afterLetters_suffix {word : List Char} (found : afterLetters? word cs = some rest) :
    rest <:+ cs := by
  fun_induction afterLetters? word cs with
  | case1 cs =>
    cases found
    exact List.suffix_refl _
  | case2 => cases found
  | case3 letter word c cs same ih => exact (ih found).trans (List.suffix_cons c cs)
  | case4 => cases found

theorem NamePart.after_suffix {part : NamePart} (found : part.after? cs = some rest) :
    rest <:+ cs := by
  cases part with
  | letters word => exact afterLetters_suffix found
  | optionalLetters word =>
    cases Option.some.inj found
    cases here : afterLetters? word.toList cs with
    | none => exact List.suffix_refl _
    | some left => exact afterLetters_suffix here
  | optionalMark marks =>
    cases cs with
    | nil =>
      cases found
      exact List.suffix_refl _
    | cons c cs =>
      cases Option.some.inj found
      split
      · exact List.suffix_cons c cs
      · exact List.suffix_refl _

def afterParts? (name : Name) (cs : List Char) : Option (List Char) :=
  name.foldlM (fun cs part => part.after? cs) cs

theorem afterParts_cons (part : NamePart) (parts : Name) (cs : List Char) :
    afterParts? (part :: parts) cs = (part.after? cs).bind (afterParts? parts) := rfl

theorem afterParts_step {part : NamePart} {parts : Name} (here : part.after? cs = some rest) :
    afterParts? (part :: parts) cs = afterParts? parts rest := by
  rw [afterParts_cons, here]
  rfl

theorem afterParts_suffix (found : afterParts? name cs = some rest) : rest <:+ cs := by
  induction name generalizing cs with
  | nil =>
    cases found
    exact List.suffix_refl _
  | cons part parts ih =>
    rw [afterParts_cons] at found
    obtain ⟨left, here, found⟩ := Option.bind_eq_some_iff.mp found
    exact (ih found).trans (NamePart.after_suffix here)

theorem afterQuote_suffix (cs : List Char) : afterQuote cs <:+ cs := by
  cases cs with
  | nil => exact List.suffix_refl _
  | cons c cs =>
    show (if isQuote c then cs else c :: cs) <:+ c :: cs
    split
    · exact List.suffix_cons c cs
    · exact List.suffix_refl _

theorem afterBlanks_suffix (cs : List Char) : afterBlanks cs <:+ cs := List.dropWhile_suffix _

def afterSign? (cs : List Char) : Option (List Char) :=
  match afterBlanks (afterQuote cs) with
  | [] => none
  | c :: rest => if isAssignment c then some (afterQuote (afterBlanks rest)) else none

theorem afterName_eq (name : Name) (cs : List Char) :
    afterName? name cs = (afterParts? name cs).bind afterSign? := rfl

theorem afterSign_suffix (found : afterSign? cs = some rest) : rest <:+ cs := by
  have inner := (afterBlanks_suffix (afterQuote cs)).trans (afterQuote_suffix cs)
  unfold afterSign? at found
  split at found
  · cases found
  · rename_i c left shape
    rw [shape] at inner
    split at found
    · cases Option.some.inj found
      exact (afterQuote_suffix _).trans ((afterBlanks_suffix left).trans
        ((List.suffix_cons c left).trans inner))
    · cases found

theorem afterName_suffix (found : afterName? name cs = some rest) : rest <:+ cs := by
  rw [afterName_eq] at found
  obtain ⟨left, parts, sign⟩ := Option.bind_eq_some_iff.mp found
  exact (afterSign_suffix sign).trans (afterParts_suffix parts)

def Stops (rest : List Char) : Prop := ∀ c, rest.head? = some c → isSecretChar c = false

theorem announced_eq_none (found : ∀ rest, afterName? name cs = some rest → Stops rest) :
    announced? name cs = none := by
  unfold announced?
  cases here : afterName? name cs with
  | none => rfl
  | some rest =>
    have taken : rest.takeWhile isSecretChar = [] :=
      Lists.takeWhile_span (List.forall_mem_nil _) (found rest here)
    show (match rest.takeWhile isSecretChar with
      | [] => none
      | _ :: _ => some _) = none
    rw [taken]

theorem announced_of_value (found : afterName? name (before ++ (value ++ rest)) = some (value ++ rest))
    (filled : value ≠ []) (all : value.all isSecretChar = true) (stops : Stops rest) :
    announced? name (before ++ (value ++ rest)) = some (before, rest) := by
  have kept := List.all_eq_true.mp all
  unfold announced?
  rw [found]
  show (match (value ++ rest).takeWhile isSecretChar with
    | [] => none
    | _ :: _ => some ((before ++ (value ++ rest)).take _, (value ++ rest).dropWhile isSecretChar)) = _
  rw [Lists.takeWhile_span kept stops, Lists.dropWhile_span kept stops]
  cases value with
  | nil => exact absurd rfl filled
  | cons c value => simp

theorem announced_shorter (found : announced? name cs = some (before, rest)) :
    rest.length < cs.length := by
  unfold announced? at found
  obtain ⟨left, here, found⟩ := Option.bind_eq_some_iff.mp found
  have inside := (afterName_suffix here).length_le
  have parts := congrArg List.length (List.takeWhile_append_dropWhile (p := isSecretChar) (l := left))
  rw [List.length_append] at parts
  split at found
  · cases found
  · rename_i value filled
    cases found
    rw [filled, List.length_cons] at parts
    omega

theorem maskFrom_congr {steps more : Nat} (enough : cs.length ≤ steps) (also : cs.length ≤ more) :
    maskFrom name steps cs = maskFrom name more cs := by
  induction steps generalizing more cs with
  | zero =>
    cases List.eq_nil_of_length_eq_zero (Nat.le_zero.mp enough)
    cases more <;> rfl
  | succ steps ih =>
    cases cs with
    | nil => cases more <;> rfl
    | cons c cs =>
      cases more with
      | zero => cases also
      | succ more =>
        rw [List.length_cons] at enough also
        rw [maskFrom, maskFrom]
        cases found : announced? name (c :: cs) with
        | none => exact congrArg (c :: ·) (ih (by omega) (by omega))
        | some parts =>
          obtain ⟨before, rest⟩ := parts
          have shorter := announced_shorter found
          rw [List.length_cons] at shorter
          exact congrArg (before ++ mark ++ ·) (ih (by omega) (by omega))

theorem maskName_of_none {c : Char} (none : announced? name (c :: cs) = none) :
    maskName (c :: cs) name = c :: maskName cs name := by
  show maskFrom name (cs.length + 1) (c :: cs) = c :: maskFrom name cs.length cs
  rw [maskFrom, none]

theorem maskName_of_announced (found : announced? name cs = some (before, rest)) :
    maskName cs name = before ++ mark ++ maskName rest name := by
  have shorter := announced_shorter found
  unfold maskName
  cases cs with
  | nil => cases shorter
  | cons c cs =>
    rw [List.length_cons] at shorter ⊢
    rw [maskFrom, found]
    exact congrArg (before ++ mark ++ ·) (maskFrom_congr (by omega) (Nat.le_refl _))

def OpensWithS (after : List Char) : Prop := ∃ c rest, after = c :: rest ∧ (c = 's' ∨ c = 'S')

/-- What the scan leaves of a text before an `s` does not depend on what follows. -/
def HaltsAtS (scan : List Char → Option (List Char)) : Prop :=
  ∀ before, ∃ left : Option (List Char), ∀ after, OpensWithS after →
    scan (before ++ after) = left.map (· ++ after)

def NamePart.lacksS : NamePart → Bool
  | letters word | optionalLetters word => word.toList.all fun letter => Text.fold letter != 's'
  | optionalMark marks => !marks.toList.contains 's' && !marks.toList.contains 'S'

theorem OpensWithS.head {c : Char} (opens : OpensWithS (c :: rest)) : c = 's' ∨ c = 'S' := by
  obtain ⟨_, _, same, isS⟩ := opens
  cases same
  exact isS

theorem OpensWithS.not_blank {c : Char} (opens : OpensWithS (c :: rest)) :
    Text.isBlank c = false := by
  rcases opens.head with rfl | rfl <;> decide

theorem OpensWithS.not_quote {c : Char} (opens : OpensWithS (c :: rest)) : isQuote c = false := by
  rcases opens.head with rfl | rfl <;> decide

theorem OpensWithS.not_assignment {c : Char} (opens : OpensWithS (c :: rest)) :
    isAssignment c = false := by
  rcases opens.head with rfl | rfl <;> decide

theorem OpensWithS.fold {c : Char} (opens : OpensWithS (c :: rest)) : Text.fold c = 's' := by
  rcases opens.head with rfl | rfl <;> decide

theorem HaltsAtS.bind {scan next : List Char → Option (List Char)} (halts : HaltsAtS scan)
    (then_ : HaltsAtS next) : HaltsAtS fun cs => (scan cs).bind next := by
  intro before
  obtain ⟨left, here⟩ := halts before
  cases left with
  | none =>
    refine ⟨none, fun after opens => ?_⟩
    show (scan (before ++ after)).bind next = _
    rw [here after opens]
    rfl
  | some left =>
    obtain ⟨last, there⟩ := then_ left
    refine ⟨last, fun after opens => ?_⟩
    show (scan (before ++ after)).bind next = _
    rw [here after opens]
    exact there after opens

theorem afterLetters_haltsAtS {word : List Char}
    (lacks : word.all (fun letter => Text.fold letter != 's') = true) :
    HaltsAtS (NamePart.afterLetters? word) := by
  induction word with
  | nil => exact fun before => ⟨some before, fun after _ => rfl⟩
  | cons letter word ih =>
    rw [List.all_cons, Bool.and_eq_true, bne_iff_ne] at lacks
    intro before
    cases before with
    | nil =>
      refine ⟨none, fun after opens => ?_⟩
      obtain ⟨c, rest, rfl, -⟩ := id opens
      rw [List.nil_append, NamePart.afterLetters?, opens.fold, if_neg lacks.1]
      rfl
    | cons c before =>
      obtain ⟨left, here⟩ := ih lacks.2 before
      by_cases same : Text.fold letter = Text.fold c
      · refine ⟨left, fun after opens => ?_⟩
        rw [List.cons_append, NamePart.afterLetters?, if_pos same]
        exact here after opens
      · refine ⟨none, fun after _ => ?_⟩
        rw [List.cons_append, NamePart.afterLetters?, if_neg same]
        rfl

theorem NamePart.haltsAtS {part : NamePart} (lacks : part.lacksS = true) : HaltsAtS part.after? := by
  cases part with
  | letters word => exact afterLetters_haltsAtS lacks
  | optionalLetters word =>
    intro before
    obtain ⟨left, here⟩ := afterLetters_haltsAtS lacks before
    refine ⟨some (left.getD before), fun after opens => ?_⟩
    rw [after?, here after opens]
    cases left <;> rfl
  | optionalMark marks =>
    simp only [lacksS, Bool.and_eq_true, Bool.not_eq_true'] at lacks
    intro before
    cases before with
    | nil =>
      refine ⟨some [], fun after opens => ?_⟩
      obtain ⟨c, rest, rfl, isS⟩ := opens
      have other : marks.toList.contains c = false := by
        rcases isS with rfl | rfl
        · exact lacks.1
        · exact lacks.2
      show some (if marks.toList.contains c then rest else c :: rest) = _
      rw [other]
      rfl
    | cons c before =>
      refine ⟨some (if marks.toList.contains c then before else c :: before), fun after _ => ?_⟩
      show some (if marks.toList.contains c then before ++ after else c :: (before ++ after)) = _
      split <;> rfl

theorem afterParts_haltsAtS (lacks : name.all NamePart.lacksS = true) :
    HaltsAtS (afterParts? name) := by
  induction name with
  | nil => exact fun before => ⟨some before, fun after _ => rfl⟩
  | cons part parts ih =>
    rw [List.all_cons, Bool.and_eq_true] at lacks
    exact (NamePart.haltsAtS lacks.1).bind (ih lacks.2)

theorem afterQuote_append (opens : OpensWithS after) :
    afterQuote (before ++ after) = afterQuote before ++ after := by
  cases before with
  | nil =>
    obtain ⟨c, rest, rfl, -⟩ := id opens
    show afterQuote (c :: rest) = c :: rest
    rw [afterQuote, opens.not_quote]
    rfl
  | cons c before =>
    rw [List.cons_append, afterQuote, afterQuote]
    split <;> rfl

theorem afterBlanks_append (opens : OpensWithS after) :
    afterBlanks (before ++ after) = afterBlanks before ++ after := by
  obtain ⟨c, rest, rfl, -⟩ := id opens
  have kept : (c :: rest).dropWhile Text.isBlank = c :: rest :=
    List.dropWhile_cons_of_neg (by simp [opens.not_blank])
  unfold afterBlanks
  rw [List.dropWhile_append]
  split
  · rename_i all
    rw [kept, List.isEmpty_iff.mp all]
    rfl
  · rfl

theorem afterSign_haltsAtS : HaltsAtS afterSign? := by
  intro before
  cases shape : afterBlanks (afterQuote before) with
  | nil =>
    refine ⟨none, fun after opens => ?_⟩
    obtain ⟨c, rest, rfl, -⟩ := id opens
    rw [afterSign?, afterQuote_append opens, afterBlanks_append opens, shape, List.nil_append]
    dsimp only
    rw [opens.not_assignment]
    rfl
  | cons sign left =>
    refine ⟨if isAssignment sign then some (afterQuote (afterBlanks left)) else none,
      fun after opens => ?_⟩
    rw [afterSign?, afterQuote_append opens, afterBlanks_append opens, shape, List.cons_append]
    dsimp only
    rw [afterBlanks_append opens, afterQuote_append opens]
    split <;> rfl

theorem afterName_haltsAtS (lacks : name.all NamePart.lacksS = true) : HaltsAtS (afterName? name) :=
  (afterParts_haltsAtS lacks).bind afterSign_haltsAtS

end HarvestPlan.Secret
