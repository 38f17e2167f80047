import HarvestPlan.Proofs.Config.Accepted

namespace HarvestPlan.Properties

open Json (Value Fields)
open Outcome (Ends)

def HoldsText (fields : Fields) (key : String) : Prop :=
  ∀ value, fields.find? key = some value → ∃ text, value = .str text

def IsInfinite (value : Value) : Prop := ∃ negative, value = .float (.infinite negative)

def HasFlag (fields : Fields) : Prop :=
  ∀ value, fields.find? recursiveKey = some value → ∃ answer, SpellsBoolean value.text answer

/-- The cap is infinite, and nothing that is read before it is invalid. -/
structure Overflows (fields : Fields) : Prop where
  paths : fields.has sourcePathsKey = true
  flag : HasFlag fields
  cap : IsInfinite (fields.findOrNull capKey)

variable {fields : Fields}

theorem readInteger_ends {value : Value} (key : String) (finite : ¬IsInfinite value) :
    Ends (fun _ => True) IsRefusal (readInteger key value) := by
  cases value with
  | int i => exact .ok trivial
  | bool b => exact .ok trivial
  | float x =>
    cases x with
    | nan => exact .error ⟨_, rfl⟩
    | infinite negative => exact absurd ⟨negative, rfl⟩ finite
    | finite negative mantissa exponent => exact .ok trivial
  | str text =>
    unfold readInteger
    dsimp only
    cases Text.integer? text with
    | some i => exact .ok trivial
    | none => exact .error ⟨_, rfl⟩
  | null | arr items | obj items => exact .error ⟨_, rfl⟩

theorem readCap_of_finite (finite : ¬IsInfinite (fields.findOrNull capKey)) :
    Ends (fun _ => True) IsRefusal (readCap fields) := by
  unfold readCap
  split
  · exact .ok trivial
  · exact .ok trivial
  · exact readInteger_ends capKey finite

theorem readCap_of_infinite (infinite : IsInfinite (fields.findOrNull capKey)) :
    readCap fields = .error .beyondRange := by
  obtain ⟨negative, same⟩ := infinite
  rw [readCap, same]
  rfl

theorem readFlag_ends (fields : Fields) :
    Ends (fun _ => HasFlag fields) (fun failure => IsRefusal failure ∧ ¬HasFlag fields)
      (readBoolean recursiveKey ((fields.find? recursiveKey).getD (.bool true))) := by
  cases present : fields.find? recursiveKey with
  | none =>
    apply Ends.ok
    intro value known
    rw [present] at known
    cases known
  | some value =>
    apply (readBoolean_ends recursiveKey value).imp
    · intro answer spells other known
      rw [present] at known
      cases known
      exact ⟨answer, spells⟩
    · rintro failure ⟨refusal, other⟩
      refine ⟨refusal, fun flag => ?_⟩
      obtain ⟨answer, spells⟩ := flag value present
      exact other answer spells

theorem readUri_of_text (holds : HoldsText fields uriKey) : ∃ uri, readUri fields = .ok uri := by
  unfold readUri
  cases present : fields.find? uriKey with
  | none => exact ⟨_, rfl⟩
  | some value =>
    obtain ⟨uri, rfl⟩ := holds value present
    exact ⟨uri, rfl⟩

theorem connection_refuses (fields : Fields) (uri : String) :
    Ends (fun _ => True) IsRefusal (connection fields uri) := by
  unfold connection
  by_cases bucket : (namesBucket uri || fields.has bucketNameKey) = true
  · rw [if_pos bucket]
    unfold s3Connection
    dsimp only
    split
    · exact .ok trivial
    · exact .error ⟨_, rfl⟩
  · rw [if_neg bucket]
    exact .ok trivial

theorem ofValues_refuses (text : String) (connection : Connection) (recursive : Value) (cap : Int) :
    Ends (fun config => 1 ≤ config.cap) IsRefusal
      (Config.ofValues (.ofStrings (SourcePaths.parse text)) connection recursive (.int cap)) := by
  rw [ofValues_parsed]
  split
  · exact .error ⟨_, rfl⟩
  · split
    · exact .error ⟨_, rfl⟩
    · rename_i large
      have positive : 1 ≤ cap := by omega
      exact .ok positive

theorem ofValue_of_overflows (paths : HoldsText fields sourcePathsKey) (overflows : Overflows fields) :
    ofValue (.obj fields) = .error .beyondRange := by
  obtain ⟨value, present⟩ := Option.isSome_iff_exists.mp
    ((Fields.has_eq_isSome fields sourcePathsKey).symm.trans overflows.paths)
  obtain ⟨text, rfl⟩ := paths value present
  show toConfig fields = _
  unfold toConfig
  rw [present, readCap_of_infinite overflows.cap]
  show (readBoolean recursiveKey _ >>= fun _ => .error .beyondRange) = _
  have read := readFlag_ends fields
  generalize readBoolean recursiveKey _ = flag at read ⊢
  cases read with
  | ok => rfl
  | error refused => exact absurd overflows.flag refused.2

theorem ofValue_ends (paths : HoldsText fields sourcePathsKey) (uri : HoldsText fields uriKey)
    (within : ¬Overflows fields) :
    Ends (fun config => 1 ≤ config.cap) IsRefusal (ofValue (.obj fields)) := by
  show Ends _ _ (toConfig fields)
  unfold toConfig
  cases present : fields.find? sourcePathsKey with
  | none => exact .error ⟨_, rfl⟩
  | some value =>
    obtain ⟨text, rfl⟩ := paths value present
    show Ends _ _ (readBoolean recursiveKey _ >>= _)
    apply ((readFlag_ends fields).imp (fun _ => id) fun _ => And.left).bind
    intro answer flag
    have finite : ¬IsInfinite (fields.findOrNull capKey) := by
      intro infinite
      have known : fields.has sourcePathsKey = true := by rw [Fields.has_eq_isSome, present]; rfl
      exact within ⟨known, flag, infinite⟩
    apply (readCap_of_finite finite).bind
    intro cap _
    obtain ⟨given, read⟩ := readUri_of_text uri
    rw [read]
    apply (connection_refuses fields given).bind
    intro connection _
    exact ofValues_refuses text connection (.bool answer) cap

/-- Properties with texts for the paths and the URI make a configuration with a positive cap or are
    refused, unless they come to read an infinite cap, which has no integer. -/
theorem ofValue_unless_infinite (paths : HoldsText fields sourcePathsKey)
    (uri : HoldsText fields uriKey) :
    (¬Overflows fields → Ends (fun config => 1 ≤ config.cap) IsRefusal (ofValue (.obj fields))) ∧
      (Overflows fields → ofValue (.obj fields) = .error .beyondRange) :=
  ⟨ofValue_ends paths uri, ofValue_of_overflows paths⟩

def infiniteCap : Fields := [(sourcePathsKey, .str "/a"), (capKey, .float (.infinite false))]

theorem infiniteCap_holdsText {key : String} (other : key ≠ capKey) : HoldsText infiniteCap key := by
  intro value present
  by_cases path : key = sourcePathsKey
  · subst path
    exact ⟨"/a", (Option.some.inj present).symm⟩
  · have absent : infiniteCap.find? key = none := by
      rw [Fields.find?, infiniteCap, List.lookup_cons, List.lookup_cons, beq_false_of_ne path,
        beq_false_of_ne other]
      rfl
    rw [absent] at present
    cases present

theorem infiniteCap_overflows :
    Overflows infiniteCap ∧ ofValue (.obj infiniteCap) = .error .beyondRange := by
  have overflows : Overflows infiniteCap :=
    { paths := rfl
      flag := by
        intro value present
        cases present
      cap := ⟨false, rfl⟩ }
  have paths := @infiniteCap_holdsText sourcePathsKey (by decide)
  have uri := @infiniteCap_holdsText uriKey (by decide)
  exact ⟨overflows, (ofValue_unless_infinite paths uri).2 overflows⟩

theorem infiniteCap_not_refused : (∀ key, key ≠ capKey → HoldsText infiniteCap key) ∧
    ¬Ends (fun config => 1 ≤ config.cap) IsRefusal (ofValue (.obj infiniteCap)) := by
  refine ⟨fun _ => infiniteCap_holdsText, ?_⟩
  intro ends
  have fails : ofValue (.obj infiniteCap) = .error .beyondRange := rfl
  rw [fails] at ends
  cases ends with
  | error refusal =>
    obtain ⟨_, same⟩ := refusal
    cases same

end HarvestPlan.Properties
