import Mathlib.Data.List.Forall2
import HarvestPlan.Proofs.Log.Scanned

namespace HarvestPlan.Secret

open Json (Value)

def Spells (cs : List Char) (word : String) : Prop :=
  List.Forall₂ (fun c letter => c = letter ∨ c = letter.toUpper) cs word.toList

def IsLink (cs : List Char) : Prop := cs = [] ∨ cs = ['_'] ∨ cs = ['-']

/-- The name of a secret key and the sign that a secret follows. -/
inductive IsMarker : List Char → Prop
  | parts {secret first key second number : List Char} {sign : Char}
      (opening : Spells secret "secret") (between : IsLink first) (middle : Spells key "key")
      (behind : IsLink second) (optional : number = [] ∨ Spells number "id")
      (assigns : sign = ':' ∨ sign = '=') :
      IsMarker (secret ++ (first ++ (key ++ (second ++ (number ++ [sign])))))

def IsDelimiter (c : Char) : Prop :=
  c = '"' ∨ c = '\'' ∨ c = '\x7d' ∨ c = ',' ∨ Text.isBlank c = true

structure IsSecret (secret : List Char) : Prop where
  filled : secret ≠ []
  free : ∀ c ∈ secret, ¬IsDelimiter c

def IsDelimited (after : List Char) : Prop := ∀ c, after.head? = some c → IsDelimiter c

variable {before after rest secret marker cs : List Char} {c : Char}

theorem isSecretChar_eq_false_iff : isSecretChar c = false ↔ IsDelimiter c := by
  simp only [isSecretChar, isQuote, IsDelimiter, Bool.not_eq_false', Bool.or_eq_true, beq_iff_eq,
    or_assoc]

theorem isSecret_iff : IsSecret secret ↔ secret ≠ [] ∧ secret.all isSecretChar = true := by
  have each : ∀ c, ¬IsDelimiter c ↔ isSecretChar c = true := by
    intro c
    rw [← isSecretChar_eq_false_iff, Bool.not_eq_false]
  rw [List.all_eq_true]
  constructor
  · exact fun is => ⟨is.filled, fun c present => (each c).mp (is.free c present)⟩
  · exact fun ⟨filled, all⟩ => ⟨filled, fun c present => (each c).mpr (all c present)⟩

theorem IsDelimited.stops (delimited : IsDelimited after) : Stops after :=
  fun c opens => isSecretChar_eq_false_iff.mpr (delimited c opens)

def keyName : Name :=
  [.letters "secret", .optionalMark "_-", .letters "key", .optionalMark "_-", .optionalLetters "id"]

theorem names_eq : names = keyName :: names.tail := rfl

theorem after_letters {word : String} (spells : Spells cs word)
    (cased : word.toList.all (fun letter => Text.fold letter.toUpper == Text.fold letter) = true) :
    (NamePart.letters word).after? (cs ++ rest) = some rest := by
  unfold Spells at spells
  rw [NamePart.after?]
  generalize word.toList = letters at spells cased
  induction spells with
  | nil => rfl
  | @cons c letter cs letters either _ ih =>
    rw [List.all_cons, Bool.and_eq_true, beq_iff_eq] at cased
    have same : Text.fold letter = Text.fold c := by
      rcases either with rfl | rfl
      · rfl
      · exact cased.1.symm
    rw [List.cons_append, NamePart.afterLetters?, if_pos same]
    exact ih cased.2

theorem after_mark (link : IsLink cs) (other : c ≠ '_' ∧ c ≠ '-') :
    (NamePart.optionalMark "_-").after? (cs ++ c :: rest) = some (c :: rest) := by
  rcases link with rfl | rfl | rfl
  · show some (if ['_', '-'].contains c then rest else c :: rest) = _
    rw [if_neg (by simp [other])]
  · rfl
  · rfl

theorem Spells.opens {letter : Char} {word : String} (spells : Spells cs word)
    (first : word.toList.head? = some letter) :
    ∃ c rest, cs = c :: rest ∧ (c = letter ∨ c = letter.toUpper) := by
  unfold Spells at spells
  generalize word.toList = letters at spells first
  cases spells with
  | nil => cases first
  | cons either _ =>
    cases first
    exact ⟨_, _, rfl, either⟩

theorem after_number {number : List Char} {sign : Char} (optional : number = [] ∨ Spells number "id")
    (assigns : sign = ':' ∨ sign = '=') :
    (NamePart.optionalLetters "id").after? (number ++ sign :: rest) = some (sign :: rest) := by
  rcases optional with rfl | spells
  · rcases assigns with rfl | rfl <;> rfl
  · have here : NamePart.afterLetters? "id".toList (number ++ sign :: rest) = some (sign :: rest) :=
      after_letters spells (by decide)
    rw [NamePart.after?, here]
    rfl

theorem opens_number {number : List Char} {sign : Char} (optional : number = [] ∨ Spells number "id")
    (assigns : sign = ':' ∨ sign = '=') :
    ∃ c left, number ++ sign :: rest = c :: left ∧ (c ≠ '_' ∧ c ≠ '-') := by
  rcases optional with rfl | spells
  · exact ⟨sign, rest, rfl, by rcases assigns with rfl | rfl <;> decide⟩
  · obtain ⟨c, left, rfl, either⟩ := @Spells.opens _ 'i' _ spells rfl
    exact ⟨c, left ++ sign :: rest, rfl, by rcases either with rfl | rfl <;> decide⟩

theorem afterSign_of_assigns {sign : Char} (assigns : sign = ':' ∨ sign = '=') (is : IsSecret secret) :
    afterSign? (sign :: (secret ++ rest)) = some (secret ++ rest) := by
  cases secret with
  | nil => exact absurd rfl is.filled
  | cons c secret =>
    have free := is.free c List.mem_cons_self
    have notBlank : Text.isBlank c = false := by
      rw [← Bool.not_eq_true]
      exact fun blank => free (.inr (.inr (.inr (.inr blank))))
    have notQuote : isQuote c = false := by
      rw [isQuote, Bool.or_eq_false_iff, beq_eq_false_iff_ne, beq_eq_false_iff_ne]
      exact ⟨fun same => free (.inl same), fun same => free (.inr (.inl same))⟩
    have skipped : afterQuote (afterBlanks (c :: (secret ++ rest))) = c :: (secret ++ rest) := by
      rw [afterBlanks, List.dropWhile_cons_of_neg (by simp [notBlank]), afterQuote, notQuote]
      rfl
    rcases assigns with rfl | rfl
    · show some (afterQuote (afterBlanks (c :: (secret ++ rest)))) = _
      rw [skipped]
      rfl
    · show some (afterQuote (afterBlanks (c :: (secret ++ rest)))) = _
      rw [skipped]
      rfl

theorem afterName_marker (isMarker : IsMarker marker) (is : IsSecret secret) :
    afterName? keyName (marker ++ (secret ++ rest)) = some (secret ++ rest) := by
  cases isMarker with
  | @parts opening first key second number sign spelled between middle behind optional assigns =>
    obtain ⟨k, keyRest, key_eq, isK⟩ := @Spells.opens _ 'k' _ middle rfl
    have notK : k ≠ '_' ∧ k ≠ '-' := by rcases isK with rfl | rfl <;> decide
    obtain ⟨n, numberRest, number_eq, notN⟩ := @opens_number (secret ++ rest) _ _ optional assigns
    have left : afterParts? keyName
        (opening ++ (first ++ (key ++ (second ++ (number ++ sign :: (secret ++ rest)))))) =
          some (sign :: (secret ++ rest)) := by
      calc _ = afterParts? keyName.tail
              (first ++ (key ++ (second ++ (number ++ sign :: (secret ++ rest))))) :=
            afterParts_step (after_letters spelled (by decide))
        _ = afterParts? keyName.tail.tail (key ++ (second ++ (number ++ sign :: (secret ++ rest)))) := by
            rw [key_eq]
            exact afterParts_step (after_mark between notK)
        _ = afterParts? keyName.tail.tail.tail (second ++ (number ++ sign :: (secret ++ rest))) :=
            afterParts_step (after_letters middle (by decide))
        _ = afterParts? keyName.tail.tail.tail.tail (number ++ sign :: (secret ++ rest)) := by
            rw [number_eq]
            exact afterParts_step (after_mark behind notN)
        _ = some (sign :: (secret ++ rest)) := afterParts_step (after_number optional assigns)
    rw [afterName_eq]
    simp only [List.append_assoc, List.cons_append, List.nil_append]
    rw [left]
    exact afterSign_of_assigns assigns is

/-- The name behind its first letter. It holds no other `s`, so that the name is not found across the
    beginning of a marker. -/
def keyNameRest : Name := .letters "ecret" :: keyName.tail

theorem afterName_cons (c : Char) (cs : List Char) : afterName? keyName (c :: cs) =
    if Text.fold 's' = Text.fold c then afterName? keyNameRest cs else none := by
  have opening : "secret".toList = 's' :: "ecret".toList := by decide
  rw [afterName_eq, afterName_eq, keyName, keyNameRest, afterParts_cons, afterParts_cons,
    NamePart.after?, NamePart.after?, opening, NamePart.afterLetters?]
  split <;> rfl

theorem keyNameRest_lacksS : keyNameRest.all NamePart.lacksS = true := by decide

theorem Spells.all {word : String} (spells : Spells cs word) (each : word.toList.all (fun letter =>
    isSecretChar letter && isSecretChar letter.toUpper) = true) : cs.all isSecretChar = true := by
  unfold Spells at spells
  generalize word.toList = letters at spells each
  induction spells with
  | nil => rfl
  | cons either _ ih =>
    rw [List.all_cons, Bool.and_eq_true, Bool.and_eq_true] at each
    rw [List.all_cons, ih each.2, Bool.and_true]
    rcases either with rfl | rfl
    · exact each.1.1
    · exact each.1.2

theorem IsLink.all (link : IsLink cs) : cs.all isSecretChar = true := by
  rcases link with rfl | rfl | rfl <;> decide

theorem IsMarker.opensWithS (isMarker : IsMarker marker) (rest : List Char) :
    OpensWithS (marker ++ rest) := by
  cases isMarker with
  | parts spelled =>
    obtain ⟨c, left, rfl, either⟩ := @Spells.opens _ 's' _ spelled rfl
    exact ⟨c, _, rfl, either⟩

theorem IsMarker.all (isMarker : IsMarker marker) : marker.all isSecretChar = true := by
  cases isMarker with
  | @parts opening first key second number sign spelled between middle behind optional assigns =>
    have numbered : number.all isSecretChar = true := by
      rcases optional with rfl | spells
      · rfl
      · exact spells.all (by decide)
    have signed : isSecretChar sign = true := by rcases assigns with rfl | rfl <;> decide
    have opened : opening.all isSecretChar = true := spelled.all (by decide)
    have keyed : key.all isSecretChar = true := middle.all (by decide)
    simp [opened, between.all, keyed, behind.all, numbered, signed]

/-- A name that begins before a marker is found up to one place before it, whatever follows the marker,
    or not at all. -/
theorem afterName_before (isMarker : IsMarker marker) (c : Char) (before : List Char) :
    (∀ rest, afterName? keyName (c :: before ++ (marker ++ rest)) = none) ∨
      ∃ taken left, c :: before = taken ++ left ∧
        ∀ rest, afterName? keyName (c :: before ++ (marker ++ rest)) =
          some (left ++ (marker ++ rest)) := by
  by_cases first : Text.fold 's' = Text.fold c
  · obtain ⟨found, halts⟩ := afterName_haltsAtS keyNameRest_lacksS before
    have here : ∀ rest, afterName? keyName (c :: before ++ (marker ++ rest)) =
        found.map (· ++ (marker ++ rest)) := by
      intro rest
      rw [List.cons_append, afterName_cons, if_pos first]
      exact halts _ (isMarker.opensWithS rest)
    cases found with
    | none => exact .inl here
    | some left =>
      obtain ⟨taken, shape⟩ := afterName_suffix (here [])
      rw [← List.append_assoc] at shape
      exact .inr ⟨taken, left, (List.append_cancel_right shape).symm, here⟩
  · refine .inl fun rest => ?_
    rw [List.cons_append, afterName_cons, if_neg first]

/-- What a text before a marker announces: no secret, one that ends in it, or one that takes the marker
    and the secret behind it along. -/
theorem announced_before (isMarker : IsMarker marker) (delimited : IsDelimited after) (c : Char)
    (before : List Char) :
    (∀ more, announced? keyName (c :: before ++ (marker ++ more)) = none) ∨
      (∃ taken rest, ∀ more, announced? keyName (c :: before ++ (marker ++ more)) =
        some (taken, rest ++ (marker ++ more))) ∨
      ∃ taken, ∀ secret, IsSecret secret →
        announced? keyName (c :: before ++ (marker ++ (secret ++ after))) = some (taken, after) := by
  rcases afterName_before isMarker c before with none | ⟨taken, left, shape, found⟩
  · refine .inl fun more => announced_eq_none fun rest found => ?_
    rw [none more] at found
    cases found
  · rw [shape] at found ⊢
    by_cases all : left.all isSecretChar = true
    · refine .inr (.inr ⟨taken, fun secret is => ?_⟩)
      obtain ⟨filled, free⟩ := isSecret_iff.mp is
      have value : (left ++ (marker ++ secret)).all isSecretChar = true := by
        simp [List.all_append, all, isMarker.all, free]
      have here := @announced_of_value keyName taken after (left ++ (marker ++ secret))
        (by simpa using found (secret ++ after)) (by simp [filled]) value delimited.stops
      simpa using here
    · obtain ⟨value, d, rest, rfl, all, stops⟩ := Lists.exists_stop (mt List.all_eq_true.mpr all)
      have ends : ∀ more, Stops (d :: rest ++ (marker ++ more)) := by
        intro more c opens
        cases opens
        exact stops
      by_cases empty : value = []
      · -- Nothing stands between the name and what ends a secret.
        refine .inl fun more => announced_eq_none fun next here => ?_
        rw [found more, empty] at here
        cases here
        exact ends more
      · refine .inr (.inl ⟨taken, d :: rest, fun more => ?_⟩)
        have here := @announced_of_value keyName taken _ value (by simpa using found more) empty
          (List.all_eq_true.mpr all) (ends more)
        simpa using here

def MasksAlike (before marker after : List Char) : Prop :=
  ∃ masked, ∀ secret, IsSecret secret →
    maskName (before ++ (marker ++ (secret ++ after))) keyName = masked

theorem MasksAlike.of_taken {taken : List Char} (found : ∀ secret, IsSecret secret →
    announced? keyName (before ++ (marker ++ (secret ++ after))) = some (taken, after)) :
    MasksAlike before marker after := by
  refine ⟨taken ++ mark ++ maskName after keyName, fun secret is => ?_⟩
  exact maskName_of_announced (found secret is)

theorem masksAlike (isMarker : IsMarker marker) (delimited : IsDelimited after) (before : List Char) :
    MasksAlike before marker after := by
  -- A secret that is announced before the marker may end anywhere before it, hence lengths.
  induction size : before.length using Nat.strongRecOn generalizing before with
  | ind length ih =>
    cases before with
    | nil =>
      refine @MasksAlike.of_taken [] after marker marker fun secret is => ?_
      obtain ⟨filled, free⟩ := isSecret_iff.mp is
      exact announced_of_value (afterName_marker isMarker is) filled free delimited.stops
    | cons c before =>
      rcases announced_before isMarker delimited c before with none | ⟨taken, rest, found⟩ | ⟨_, found⟩
      · have shorter : before.length < length := by
          rw [← size, List.length_cons]
          omega
        obtain ⟨masked, same⟩ := ih _ shorter before rfl
        refine ⟨c :: masked, fun secret is => ?_⟩
        rw [← same secret is]
        exact maskName_of_none (none (secret ++ after))
      · have shorter : rest.length < length := by
          have less := announced_shorter (found [])
          simp only [List.length_append] at less
          omega
        obtain ⟨masked, same⟩ := ih _ shorter rest rfl
        refine ⟨taken ++ mark ++ masked, fun secret is => ?_⟩
        rw [maskName_of_announced (found (secret ++ after)), same secret is]
      · exact .of_taken found

/-- Texts that differ in the secret behind a marker only are masked alike. -/
theorem maskValue_hides {before marker secret other after : String} (isMarker : IsMarker marker.toList)
    (isSecret : IsSecret secret.toList) (isOther : IsSecret other.toList)
    (delimited : IsDelimited after.toList) :
    maskValue (.str (before ++ marker ++ secret ++ after)) =
      maskValue (.str (before ++ marker ++ other ++ after)) := by
  obtain ⟨masked, same⟩ := masksAlike isMarker delimited before.toList
  have eachMask : ∀ text : String, IsSecret text.toList → mask (before ++ marker ++ text ++ after) =
      String.ofList (names.tail.foldl maskName masked) := by
    intro text is
    rw [mask, names_eq, List.foldl_cons, ← same _ is]
    simp only [String.toList_append, List.append_assoc]
    rfl
  rw [maskValue, maskValue, eachMask secret isSecret, eachMask other isOther]

/-- A secret that looks like a marker, behind one in mixed case that follows another. -/
theorem maskValue_hides_markerLike :
    maskValue (.str ("secret_key: 'secretkey " ++ "Secret-KeyId=" ++ "secretkey=hunter2" ++ "', 'b'")) =
      maskValue (.str ("secret_key: 'secretkey " ++ "Secret-KeyId=" ++ "0" ++ "', 'b'")) := by
  have isMarker : IsMarker "Secret-KeyId=".toList :=
    @IsMarker.parts "Secret".toList ['-'] "Key".toList [] "Id".toList '=' (by simp [Spells])
      (.inr (.inr rfl)) (by simp [Spells]) (.inl rfl) (.inr (by simp [Spells])) (.inr rfl)
  have isSecret : IsSecret "secretkey=hunter2".toList := isSecret_iff.mpr (by decide)
  have isOther : IsSecret "0".toList := isSecret_iff.mpr (by decide)
  have delimited : IsDelimited "', 'b'".toList := by
    intro c opens
    cases opens
    exact .inr (.inl rfl)
  exact maskValue_hides isMarker isSecret isOther delimited

example : mask "Secret-KeyId=secretkey=hunter2, 'b'" = "Secret-KeyId=***MASKED***, 'b'" := by
  decide +kernel

end HarvestPlan.Secret
