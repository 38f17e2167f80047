import HarvestPlan.Log.Logger
import HarvestPlan.Proofs.Log.Filled
import HarvestPlan.Proofs.Log.Scanned

namespace HarvestPlan

namespace Secret

open Json (Value)
open Template (IsTemplate holdsDirective)

variable {name : Name} {cs before rest : List Char}

def between (cs before rest : List Char) : List Char :=
  (cs.drop before.length).take (cs.length - before.length - rest.length)

def secretsFrom (name : Name) : (steps : Nat) → List Char → List (List Char)
  | 0, _ => []
  | _, [] => []
  | steps + 1, c :: cs => match announced? name (c :: cs) with
    | some (before, rest) => between (c :: cs) before rest :: secretsFrom name steps rest
    | none => secretsFrom name steps cs

def secretsOf : List Name → List Char → List (List Char)
  | [], _ => []
  | name :: names, cs => secretsFrom name cs.length cs ++ secretsOf names (maskName cs name)

def secrets (s : String) : List (List Char) := secretsOf names s.toList

example : secrets "password: x%%y, secret_key='%s'" = [['%', 's'], ['x', '%', '%', 'y']] := by
  decide +kernel

def Announces (before : List Char) : Prop :=
  ∃ start sign filler, before = start ++ sign :: filler ∧ isAssignment sign = true ∧
    ∀ c ∈ filler, Text.isBlank c = true ∨ isQuote c = true

/-- Secrets that stand behind signs, and the text with marks in their places. -/
inductive Hides : List Char → List (List Char) → List Char → Prop
  | nothing (cs : List Char) : Hides cs [] cs
  | secret {before secret rest : List Char} {secrets : List (List Char)} {masked : List Char}
      (announces : Announces before) (stops : Stops rest) (later : Hides rest secrets masked) :
      Hides (before ++ (secret ++ rest)) (secret :: secrets) (before ++ (mark ++ masked))

theorem Hides.cons {secrets : List (List Char)} {masked : List Char} (hides : Hides cs secrets masked)
    (c : Char) : Hides (c :: cs) secrets (c :: masked) := by
  cases hides with
  | nothing => exact .nothing _
  | secret announces stops later =>
    obtain ⟨start, sign, filler, rfl, assigns, blank⟩ := announces
    exact .secret ⟨c :: start, sign, filler, rfl, assigns, blank⟩ stops later

theorem afterQuote_split (cs : List Char) :
    ∃ quote, cs = quote ++ afterQuote cs ∧ ∀ c ∈ quote, isQuote c = true := by
  cases cs with
  | nil => exact ⟨[], rfl, nofun⟩
  | cons c cs =>
    rw [afterQuote]
    split
    · rename_i quotes
      exact ⟨[c], rfl, by simpa using quotes⟩
    · exact ⟨[], rfl, nofun⟩

theorem afterSign_announces (found : afterSign? cs = some rest) :
    ∃ before, cs = before ++ rest ∧ Announces before := by
  obtain ⟨start, shape⟩ := (afterBlanks_suffix (afterQuote cs)).trans (afterQuote_suffix cs)
  unfold afterSign? at found
  split at found
  · cases found
  · rename_i sign left opens
    split at found
    · rename_i assigns
      cases found
      obtain ⟨quote, quoted, allQuotes⟩ := afterQuote_split (afterBlanks left)
      have parts := List.takeWhile_append_dropWhile (p := Text.isBlank) (l := left)
      refine ⟨start ++ sign :: (left.takeWhile Text.isBlank ++ quote), ?_, start, sign, _, rfl, assigns,
        fun c present => ?_⟩
      · rw [← shape, opens, List.append_assoc, List.cons_append, List.append_assoc, ← quoted,
          afterBlanks, parts]
      · exact (List.mem_append.mp present).imp List.mem_takeWhile_imp (allQuotes c)
    · cases found

theorem afterName_announces (found : afterName? name cs = some rest) :
    ∃ before, cs = before ++ rest ∧ Announces before := by
  rw [afterName_eq] at found
  obtain ⟨left, parts, assigned⟩ := Option.bind_eq_some_iff.mp found
  obtain ⟨spelled, rfl⟩ := afterParts_suffix parts
  obtain ⟨_, rfl, start, sign, filler, rfl, assigns, blank⟩ := afterSign_announces assigned
  refine ⟨spelled ++ (start ++ sign :: filler), (List.append_assoc ..).symm, spelled ++ start, sign,
    filler, (List.append_assoc ..).symm, assigns, blank⟩

theorem announced_announces (found : announced? name cs = some (before, rest)) :
    ∃ secret, cs = before ++ (secret ++ rest) ∧ Announces before ∧ Stops rest := by
  obtain ⟨left, here, found⟩ := Option.bind_eq_some_iff.mp found
  obtain ⟨front, rfl, announces⟩ := afterName_announces here
  have ends := List.head?_dropWhile_not isSecretChar left
  split at found
  · cases found
  · cases found
    have taken : (front ++ left).take ((front ++ left).length - left.length) = front := by simp
    rw [taken]
    refine ⟨left.takeWhile isSecretChar, ?_, announces, fun c first => ?_⟩
    · rw [List.takeWhile_append_dropWhile]
    · rw [first] at ends
      simpa using ends

theorem maskFrom_hides (name : Name) (steps : Nat) (cs : List Char) :
    Hides cs (secretsFrom name steps cs) (maskFrom name steps cs) := by
  induction steps generalizing cs with
  | zero => exact .nothing cs
  | succ steps ih =>
    cases cs with
    | nil => exact .nothing []
    | cons c cs =>
      rw [secretsFrom, maskFrom]
      cases found : announced? name (c :: cs) with
      | none => exact (ih cs).cons c
      | some parts =>
        obtain ⟨before, rest⟩ := parts
        obtain ⟨secret, shape, announces, stops⟩ := announced_announces found
        have taken : between (c :: cs) before rest = secret := by simp [between, shape]
        dsimp only
        rw [taken, shape, List.append_assoc]
        exact .secret announces stops (ih rest)

open Template (Directive)

/-- The directives that are left once secrets have been masked: all of them if no secret holds one. -/
structure Keeps (ds : List Directive) (secrets : List (List Char)) (kept : List Directive) : Prop where
  sublist : kept.Sublist ds
  all_iff : kept = ds ↔ ∀ secret ∈ secrets, holdsDirective secret = false

theorem Keeps.trans {ds kept last : List Directive} {secrets more : List (List Char)}
    (keeps : Keeps ds secrets kept) (again : Keeps kept more last) : Keeps ds (secrets ++ more) last := by
  refine ⟨again.sublist.trans keeps.sublist, ?_⟩
  rw [List.forall_mem_append, ← keeps.all_iff, ← again.all_iff]
  constructor
  · rintro rfl
    have same := keeps.sublist.antisymm again.sublist
    exact ⟨same, same.symm⟩
  · rintro ⟨rfl, rfl⟩
    rfl

theorem Announces.cut {ds : List Directive} {after : List Char} (announces : Announces before)
    (isTemplate : IsTemplate (before ++ after) ds) :
    ∃ front back, ds = front ++ back ∧ IsTemplate after back ∧
      ∀ cs ds, IsTemplate cs ds → IsTemplate (before ++ cs) (front ++ ds) := by
  obtain ⟨start, sign, filler, rfl, assigns, blank⟩ := announces
  have isSign : sign = ':' ∨ sign = '=' := by simpa [isAssignment] using assigns
  have foreign : Template.isDirectiveChar sign = false ∧ '%' ≠ sign := by
    rcases isSign with rfl | rfl <;> decide
  have free : '%' ∉ sign :: filler := by
    rw [List.mem_cons, not_or]
    exact ⟨foreign.2, fun present => absurd (blank '%' present) (by decide)⟩
  rw [List.append_assoc] at isTemplate
  have stops : (sign :: filler ++ after).head? ≠ some '%' := fun same =>
    foreign.2 (Option.some.inj same).symm
  cases isTemplate.splits stops with
  | between front back parts behind _ again =>
    refine ⟨front, back, parts, (Template.isTemplate_append_iff free).mp behind, fun cs ds more => ?_⟩
    rw [List.append_assoc]
    exact again _ _ ((Template.isTemplate_append_iff free).mpr more)
  | @within front back d left rest _ shape opened plain _ _ =>
    cases left with
    | nil => exact absurd rfl opened
    | cons c left =>
      obtain ⟨rfl, -⟩ := List.cons.inj shape
      exact absurd (plain sign List.mem_cons_self) (by simp [foreign.1])

/-- The directives of a secret are those that begin in it, even one that ends behind it. -/
theorem Stops.cut {ds : List Directive} {secret : List Char} (stops : Stops rest)
    (isTemplate : IsTemplate (secret ++ rest) ds) :
    ∃ own back, ds = own ++ back ∧ IsTemplate rest back ∧
      (own = [] ↔ holdsDirective secret = false) := by
  have opens : rest.head? ≠ some '%' := fun same => absurd (stops '%' same) (by decide)
  cases isTemplate.splits opens with
  | between own back parts behind none_iff _ => exact ⟨own, back, parts, behind, none_iff⟩
  | @within own back d left rest parts shape opened plain behind holds =>
    have free : '%' ∉ left := fun present => absurd (plain '%' present) (by decide)
    refine ⟨own ++ [d], back, by simp [parts], ?_, by simp [holds]⟩
    rw [shape]
    exact (Template.isTemplate_append_iff free).mpr behind

theorem Hides.keeps {secrets : List (List Char)} {masked : List Char} {ds : List Directive}
    (hides : Hides cs secrets masked) (isTemplate : IsTemplate cs ds) :
    ∃ kept, IsTemplate masked kept ∧ Keeps ds secrets kept := by
  induction hides generalizing ds with
  | nothing cs => exact ⟨ds, isTemplate, List.Sublist.refl _, by simp⟩
  | @secret before secret rest secrets masked announces stops later ih =>
    obtain ⟨front, _, rfl, inner, again⟩ := announces.cut isTemplate
    obtain ⟨own, back, rfl, behind, none_iff⟩ := stops.cut inner
    obtain ⟨kept, isTemplate, keeps⟩ := ih behind
    refine ⟨front ++ kept, again _ _ ?_, ?_, ?_⟩
    · exact (Template.isTemplate_append_iff (by decide)).mpr isTemplate
    · exact (keeps.sublist.trans (List.sublist_append_right own back)).append_left front
    · rw [List.append_cancel_left_eq, List.forall_mem_cons, ← none_iff, ← keeps.all_iff]
      constructor
      · intro same
        have fewer := keeps.sublist.length_le
        rw [same, List.length_append] at fewer
        have none : own = [] := List.eq_nil_of_length_eq_zero (by omega)
        rw [none] at same
        exact ⟨none, same⟩
      · rintro ⟨rfl, rfl⟩
        rfl

theorem maskName_keeps (names : List Name) {ds : List Directive} (isTemplate : IsTemplate cs ds) :
    ∃ kept, IsTemplate (names.foldl maskName cs) kept ∧ Keeps ds (secretsOf names cs) kept := by
  induction names generalizing cs ds with
  | nil => exact ⟨ds, isTemplate, List.Sublist.refl _, by simp [secretsOf]⟩
  | cons name names ih =>
    obtain ⟨kept, first, keeps⟩ := (maskFrom_hides name cs.length cs).keeps isTemplate
    obtain ⟨last, later, again⟩ := ih first
    exact ⟨last, later, keeps.trans again⟩

theorem mask_keeps {template : String} {ds : List Directive}
    (isTemplate : IsTemplate template.toList ds) :
    ∃ kept, IsTemplate (mask template).toList kept ∧ Keeps ds (secrets template) kept := by
  rw [mask, String.toList_ofList]
  exact maskName_keeps names isTemplate

theorem maskName_singleton (name : Name) (c : Char) : maskName [c] name = [c] := by
  apply maskName_of_none
  apply announced_eq_none
  intro rest found
  obtain ⟨_, shape, start, sign, filler, rfl, -⟩ := afterName_announces found
  have size := congrArg List.length shape
  simp only [List.length_append, List.length_cons, List.length_nil] at size
  have none : rest = [] := List.eq_nil_of_length_eq_zero (by omega)
  rw [none]
  exact nofun

theorem mask_singleton {s : String} {c : Char} (single : s.toList = [c]) : mask s = s := by
  rw [mask, single, List.foldl_fixed' fun name => maskName_singleton name c, ← single,
    String.ofList_toList]

theorem fits_mask {d : Directive} {s : String} (fits : Template.Fits d s) :
    Template.Fits d (mask s) := by
  refine ⟨fits.unnamed, fits.width, fits.precision, ?_⟩
  refine fits.conversion.imp_right (Or.imp_right (Or.imp_right ?_))
  rintro ⟨same, c, single⟩
  exact ⟨same, c, by rw [mask_singleton single, single]⟩

theorem maskArguments_texts (texts : List String) :
    maskArguments (.arr (texts.map .str)) = .arr ((texts.map mask).map .str) := by
  simp [maskArguments, maskValue]

theorem masked_fits_iff {template : String} {arguments : List String}
    (fits : (Template.fill? template (.arr (arguments.map .str))).isSome = true) :
    (Template.fill? (mask template) (maskArguments (.arr (arguments.map .str)))).isSome = true ↔
      ∀ secret ∈ secrets template, holdsDirective secret = false := by
  obtain ⟨ds, isTemplate, each⟩ := Template.fill_texts_isSome_iff.mp fits
  obtain ⟨kept, masked, keeps⟩ := mask_keeps isTemplate
  rw [maskArguments_texts, Template.fill_texts_isSome_iff, ← keeps.all_iff]
  constructor
  · rintro ⟨others, again, eachMasked⟩
    obtain rfl := again.unique masked
    apply keeps.sublist.eq_of_length
    rw [eachMasked.length_eq, List.length_map, each.length_eq]
  · rintro rfl
    exact ⟨kept, masked, List.forall₂_map_right_iff.mpr (each.imp fun _ _ => fits_mask)⟩

theorem message_eq_fill (record : LogRecord) {template s : String} {texts : List String}
    (message : record.message = .str template)
    (arguments : record.arguments = .arr ((s :: texts).map .str)) :
    record.message? = Template.fill? (mask template) (maskArguments (.arr ((s :: texts).map .str))) := by
  rw [LogRecord.message?, message, arguments]
  rfl

/-- A template that takes its arguments still takes them once secrets in both have been masked, and its
    record has a message, exactly if no secret in the template holds a directive. -/
theorem masked_isFormattable_iff {template : String} {arguments : List String}
    (fits : (Template.fill? template (.arr (arguments.map .str))).isSome = true) (record : LogRecord)
    (holds : record.message = .str template ∧ record.arguments = .arr (arguments.map .str)) :
    ((Template.fill? (mask template) (maskArguments (.arr (arguments.map .str)))).isSome = true ↔
      ∀ secret ∈ secrets template, holdsDirective secret = false) ∧
    (record.message?.isSome = true ↔ ∀ secret ∈ secrets template, holdsDirective secret = false) := by
  refine ⟨masked_fits_iff fits, ?_⟩
  cases arguments with
  | cons s texts => rw [message_eq_fill record holds.1 holds.2, masked_fits_iff fits]
  | nil =>
    -- No argument, no directive, and none that a secret could hold.
    obtain ⟨ds, isTemplate, each⟩ := Template.fill_texts_isSome_iff.mp fits
    cases each
    obtain ⟨kept, -, keeps⟩ := mask_keeps isTemplate
    have all := keeps.all_iff.mp (List.sublist_nil.mp keeps.sublist)
    have message : record.message? = some (mask template) := by
      rw [LogRecord.message?, holds.1, holds.2]
      rfl
    rw [message]
    exact ⟨fun _ => all, fun _ => rfl⟩

/-- A directive that runs into the name of a secret, two percent signs in the secret, and an argument that
    is masked itself. -/
theorem masked_isFormattable_iff_two_percent :
    (Template.fill? "%secretKey: a%%b, %5r" (.arr (["password=x", "y"].map .str))).isSome = true ∧
      (Template.fill? (mask "%secretKey: a%%b, %5r")
        (maskArguments (.arr (["password=x", "y"].map .str)))).isSome = true ∧
      (LogRecord.mk (.int 20) (.str "%secretKey: a%%b, %5r") (.arr (["password=x", "y"].map .str))
        (.int 0)).message?.isSome = true := by
  have fits : (Template.fill? "%secretKey: a%%b, %5r"
      (.arr (["password=x", "y"].map .str))).isSome = true := by decide +kernel
  have none : ∀ secret ∈ secrets "%secretKey: a%%b, %5r", holdsDirective secret = false := by
    decide +kernel
  have told := masked_isFormattable_iff fits (.mk (.int 20) (.str "%secretKey: a%%b, %5r")
    (.arr (["password=x", "y"].map .str)) (.int 0)) ⟨rfl, rfl⟩
  exact ⟨fits, told.1.mpr none, told.2.mpr none⟩

/-- The directive stands where the secret would. -/
theorem masked_notFormattable :
    (Template.fill? "password=%s" (.arr [.str "hunter2"])).isSome = true ∧
      Template.fill? (mask "password=%s") (maskArguments (.arr [.str "hunter2"])) = none ∧
      (LogRecord.mk (.int 20) (.str "password=%s") (.arr [.str "hunter2"]) (.int 0)).message? = none := by
  decide +kernel

end Secret
end HarvestPlan
