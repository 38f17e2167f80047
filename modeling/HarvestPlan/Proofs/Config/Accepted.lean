import HarvestPlan.Properties
import HarvestPlan.Proofs.Config.Paths
import HarvestPlan.Proofs.Entry.Fields
import HarvestPlan.Proofs.Path.Occurrence
import HarvestPlan.Proofs.Text.Integers

namespace HarvestPlan.Properties

open Json (Value Fields)
open Outcome (Ends)

abbrev Texts := List (String × String)

def ofTexts (texts : Texts) : Fields := texts.map fun (key, text) => (key, .str text)

def Gives (texts : Texts) (key text : String) : Prop := texts.lookup key = some text ∧ text ≠ ""

def Lacks (texts : Texts) (key : String) : Prop := ∀ text, texts.lookup key = some text → text = ""

def wordsFor : Bool → List String
  | true => trueWords
  | false => falseWords

/-- A word for a truth value in any case, perhaps with blanks around it. -/
def SpellsBoolean (text : String) (answer : Bool) : Prop :=
  ∃ core, Text.IsTrimmed Text.isBlank core ∧ Text.Surrounds Text.isBlank core text.toList ∧
    String.ofList (core.map Char.toLower) ∈ wordsFor answer

inductive HasRecursion (texts : Texts) : Bool → Prop
  | standard (absent : texts.lookup recursiveKey = none) : HasRecursion texts true
  | given {text : String} {answer : Bool} (present : texts.lookup recursiveKey = some text)
      (spells : SpellsBoolean text answer) : HasRecursion texts answer

inductive HasCap (texts : Texts) : Int → Prop
  | standard (lacks : Lacks texts capKey) : HasCap texts 128
  | given {text : String} {cap : Int} (gives : Gives texts capKey text)
      (spells : Text.SpellsInteger text cap) : HasCap texts cap

def uriOf (texts : Texts) : String := (texts.lookup uriKey).getD Connection.defaultUri

def SelectsBucket (texts : Texts) : Prop :=
  "s3a://".toList <+: (uriOf texts).toList ∨ "s3://".toList <+: (uriOf texts).toList ∨
    ∃ text, texts.lookup bucketNameKey = some text

def IsHost (uri host : String) : Prop :=
  ∃ scheme rest, uri.toList = scheme ++ (BasePath.mark ++ (host.toList ++ rest)) ∧
    ¬BasePath.mark <:+: scheme ++ BasePath.mark.dropLast ∧ '/' ∉ host.toList ∧
    ∀ c, rest.head? = some c → c = '/'

inductive NamesBucket (texts : Texts) : String → Prop
  | given {name : String} (gives : Gives texts bucketNameKey name) : NamesBucket texts name
  | host {name : String} (lacks : Lacks texts bucketNameKey) (host : IsHost (uriOf texts) name) :
      NamesBucket texts name

def LacksBucket (texts : Texts) : Prop :=
  Lacks texts accessKeyIdKey ∨ Lacks texts secretKeyIdKey ∨ ∀ name, NamesBucket texts name → name = ""

inductive HasOptional (texts : Texts) (key : String) : Value → Prop
  | given {text : String} (gives : Gives texts key text) : HasOptional texts key (.str text)
  | lacking (lacks : Lacks texts key) : HasOptional texts key .null

inductive HasConnection (texts : Texts) : Connection → Prop
  | localFiles (other : ¬SelectsBucket texts) :
      HasConnection texts (.localFiles (.str (uriOf texts)))
  | amazonS3 {accessKeyId secretKeyId bucketName : String} {region endpointUrl : Value}
      (selects : SelectsBucket texts) (access : Gives texts accessKeyIdKey accessKeyId)
      (secret : Gives texts secretKeyIdKey secretKeyId) (bucket : NamesBucket texts bucketName)
      (filled : bucketName ≠ "") (regional : HasOptional texts regionKey region)
      (endpoint : HasOptional texts endpointUrlKey endpointUrl) :
      HasConnection texts
        (.amazonS3 (.str accessKeyId) (.str secretKeyId) (.str bucketName) region endpointUrl)

structure Describes (texts : Texts) (config : Config) : Prop where
  paths : ∃ text paths, texts.lookup sourcePathsKey = some text ∧ SourcePaths.Lists text paths ∧
    paths ≠ [] ∧ config.sourcePaths = .listed paths
  recursive : ∃ answer, HasRecursion texts answer ∧ config.recursive = .bool answer
  cap : HasCap texts config.cap
  positive : 1 ≤ config.cap
  connection : HasConnection texts config.connection

inductive IsInvalid (texts : Texts) : Prop
  | noPath (blank : ∀ text, texts.lookup sourcePathsKey = some text →
      ∀ c ∈ text.toList, c = ',' ∨ Text.isBlank c = true)
  | noBoolean {text : String} (present : texts.lookup recursiveKey = some text)
      (other : ∀ answer, ¬SpellsBoolean text answer)
  | noCap {text : String} (gives : Gives texts capKey text)
      (other : ∀ cap, Text.SpellsInteger text cap → cap < 1)
  | noBucket (selects : SelectsBucket texts) (lacks : LacksBucket texts)

def IsRefusal (failure : Failure) : Prop := ∃ refusal, failure = .refused refusal

def IsRefused (texts : Texts) (failure : Failure) : Prop := IsRefusal failure ∧ IsInvalid texts

variable {texts : Texts} {key text : String}

theorem IsRefused.of_invalid (invalid : IsInvalid texts) (refusal : Refusal) :
    IsRefused texts (.refused refusal) := ⟨⟨refusal, rfl⟩, invalid⟩

theorem find_ofTexts (texts : Texts) (key : String) :
    (ofTexts texts).find? key = (texts.lookup key).map .str := by
  induction texts with
  | nil => rfl
  | cons first rest ih =>
    obtain ⟨name, text⟩ := first
    show List.lookup key ((name, Value.str text) :: ofTexts rest) = _
    rw [List.lookup_cons, List.lookup_cons]
    cases key == name with
    | true => rfl
    | false => exact ih

theorem gives_or_lacks (texts : Texts) (key : String) :
    (∃ text, Gives texts key text ∧ (ofTexts texts).findOrNull key = .str text) ∨
      Lacks texts key ∧ ((ofTexts texts).findOrNull key).isEmpty = true := by
  rw [Fields.findOrNull, find_ofTexts]
  cases present : texts.lookup key with
  | none => exact .inr ⟨by simp [Lacks, present], rfl⟩
  | some text =>
    by_cases empty : text = ""
    · exact .inr ⟨by simp [Lacks, present, empty], by simp [Value.isEmpty, empty]⟩
    · exact .inl ⟨text, ⟨present, empty⟩, rfl⟩

theorem Gives.not_lacks (gives : Gives texts key text) : ¬Lacks texts key :=
  fun lacks => gives.2 (lacks text gives.1)

theorem spellsBoolean_iff {answer : Bool} : SpellsBoolean text answer ↔
    (wordsFor answer).contains
      (String.ofList ((Text.trim Text.isBlank text.toList).map Char.toLower)) = true := by
  rw [List.contains_iff_mem]
  constructor
  · rintro ⟨core, trimmed, around, word⟩
    rwa [Text.trim_of_surrounds trimmed around]
  · intro word
    exact ⟨_, Text.trim_isTrimmed _ _, Text.trim_surrounds _ _, word⟩

theorem readBoolean_ends (key : String) (value : Value) :
    Ends (SpellsBoolean value.text)
      (fun failure => IsRefusal failure ∧ ∀ answer, ¬SpellsBoolean value.text answer)
      (readBoolean key value) := by
  have stripped : (Text.strip value.text).toList = Text.trim Text.isBlank value.text.toList :=
    String.toList_ofList
  have yesWord : SpellsBoolean value.text true ↔ trueWords.contains _ = true := spellsBoolean_iff
  have noWord : SpellsBoolean value.text false ↔ falseWords.contains _ = true := spellsBoolean_iff
  unfold readBoolean
  split
  · rename_i truth
    apply Ends.ok
    cases truth with
    | true => exact yesWord.mpr (by decide)
    | false => exact noWord.mpr (by decide)
  · rw [stripped]
    by_cases yes : SpellsBoolean value.text true
    · rw [if_pos (yesWord.mp yes)]
      exact .ok yes
    · rw [if_neg (mt yesWord.mpr yes)]
      by_cases no : SpellsBoolean value.text false
      · rw [if_pos (noWord.mp no)]
        exact .ok no
      · rw [if_neg (mt noWord.mpr no)]
        refine .error ⟨⟨_, rfl⟩, ?_⟩
        intro answer
        cases answer with
        | true => exact yes
        | false => exact no

theorem readRecursive_ends (texts : Texts) :
    Ends (HasRecursion texts) (IsRefused texts)
      (readBoolean recursiveKey (((ofTexts texts).find? recursiveKey).getD (.bool true))) := by
  rw [find_ofTexts]
  cases present : texts.lookup recursiveKey with
  | none =>
    show Ends _ _ (.ok true)
    exact .ok (.standard present)
  | some text =>
    rw [Option.map_some, Option.getD_some]
    apply (readBoolean_ends recursiveKey (.str text)).imp
    · exact fun answer spells => .given present spells
    · exact fun failure ⟨refusal, other⟩ => ⟨refusal, .noBoolean present other⟩

theorem readCap_ends (texts : Texts) :
    Ends (HasCap texts) (IsRefused texts) (readCap (ofTexts texts)) := by
  rcases gives_or_lacks texts capKey with ⟨text, gives, known⟩ | ⟨lacks, empty⟩
  · have other : readCap (ofTexts texts) = readInteger capKey (.str text) := by
      rw [readCap, known]
      split
      · rename_i absurd_
        cases absurd_
      · rename_i same
        exact absurd (Value.str.inj same) gives.2
      · rfl
    rw [other, readInteger]
    cases spelled : Text.integer? text with
    | some cap => exact .ok (.given gives (Text.integer_eq_some_iff.mp spelled))
    | none =>
      refine .error (.of_invalid (.noCap gives ?_) _)
      intro cap spells
      rw [Text.integer_eq_some_iff.mpr spells] at spelled
      cases spelled
  · have standard : readCap (ofTexts texts) = .ok Balance.defaultCap := by
      have found := find_ofTexts texts capKey
      rw [readCap, Fields.findOrNull, found] at *
      cases present : texts.lookup capKey with
      | none => rfl
      | some text =>
        rw [lacks text present]
        rfl
    rw [standard]
    exact .ok (.standard lacks)

theorem readUri_ofTexts (texts : Texts) : readUri (ofTexts texts) = .ok (uriOf texts) := by
  rw [readUri, find_ofTexts, uriOf]
  cases texts.lookup uriKey <;> rfl

theorem uriBucket_eq_some_iff {uri host : String} :
    uriBucket? uri = some host ↔ IsHost uri host := by
  constructor
  · intro found
    obtain ⟨marked, marks, rfl⟩ := Option.map_eq_some_iff.mp found
    obtain ⟨scheme, after, shape, rfl, first⟩ := Text.fromFirst_eq_some marks (by simp)
    have parts := List.takeWhile_append_dropWhile (p := (· != '/')) (l := after)
    refine ⟨scheme, after.dropWhile (· != '/'), ?_, first, ?_, ?_⟩
    · rw [String.toList_ofList]
      show _ = scheme ++ (BasePath.mark ++ (after.takeWhile (· != '/') ++ after.dropWhile (· != '/')))
      rw [parts]
      exact shape
    · rw [String.toList_ofList]
      intro present
      simpa using List.mem_takeWhile_imp present
    · intro c opens
      have slash := List.head?_dropWhile_not (· != '/') after
      rw [opens] at slash
      simpa using slash
  · rintro ⟨scheme, rest, shape, first, free, opens⟩
    have found := Text.fromFirst_append first (host.toList ++ rest)
    rw [← shape] at found
    have kept : ∀ c ∈ host.toList, (c != '/') = true := by
      intro c present
      have other : c ≠ '/' := fun same => free (same ▸ present)
      simpa using other
    have stops : ∀ c, rest.head? = some c → (c != '/') = false := by
      intro c first
      simp [opens c first]
    show (Text.fromFirst? BasePath.mark uri.toList).map _ = some host
    rw [found, Option.map_some]
    show some (String.ofList ((host.toList ++ rest).takeWhile (· != '/'))) = some host
    rw [Lists.takeWhile_span kept stops, String.ofList_toList]

def bucketName (texts : Texts) : Value :=
  let named := (ofTexts texts).findOrNull bucketNameKey
  if !named.isEmpty then named else match uriBucket? (uriOf texts) with
    | some bucket => .str bucket
    | none => named

theorem bucketName_cases (texts : Texts) :
    (∃ name, name ≠ "" ∧ NamesBucket texts name ∧ bucketName texts = .str name) ∨
      (bucketName texts).isEmpty = true ∧ ∀ name, NamesBucket texts name → name = "" := by
  unfold bucketName
  rcases gives_or_lacks texts bucketNameKey with ⟨name, gives, known⟩ | ⟨lacks, empty⟩
  · refine .inl ⟨name, gives.2, .given gives, ?_⟩
    simp [known, Value.isEmpty, gives.2]
  · simp only [empty, Bool.not_true, Bool.false_eq_true, if_false]
    have only : ∀ name, NamesBucket texts name → uriBucket? (uriOf texts) = some name := by
      intro name names
      cases names with
      | given gives => exact absurd lacks gives.not_lacks
      | host _ host => exact uriBucket_eq_some_iff.mpr host
    cases found : uriBucket? (uriOf texts) with
    | none =>
      refine .inr ⟨empty, fun name names => ?_⟩
      have same := only name names
      rw [found] at same
      cases same
    | some host =>
      by_cases filled : host = ""
      · refine .inr ⟨by simp [Value.isEmpty, filled], fun name names => ?_⟩
        have same := only name names
        rw [found, filled] at same
        exact (Option.some.inj same).symm
      · exact .inl ⟨host, filled, .host lacks (uriBucket_eq_some_iff.mp found), rfl⟩

theorem hasOptional (texts : Texts) (key : String) :
    HasOptional texts key (orNull ((ofTexts texts).findOrNull key)) := by
  rcases gives_or_lacks texts key with ⟨text, gives, known⟩ | ⟨lacks, empty⟩
  · have filled : (Value.str text).isEmpty = false := by simp [Value.isEmpty, gives.2]
    rw [known, orNull, if_neg (by simp [filled])]
    exact .given gives
  · rw [orNull, if_pos empty]
    exact .lacking lacks

theorem findOrNull_isEmpty_iff : ((ofTexts texts).findOrNull key).isEmpty = true ↔ Lacks texts key := by
  rcases gives_or_lacks texts key with ⟨text, gives, known⟩ | ⟨lacks, empty⟩
  · simp [known, Value.isEmpty, gives.2, gives.not_lacks]
  · simp [lacks, empty]

theorem bucketName_isEmpty_iff :
    (bucketName texts).isEmpty = true ↔ ∀ name, NamesBucket texts name → name = "" := by
  rcases bucketName_cases texts with ⟨name, filled, names, known⟩ | ⟨empty, nameless⟩
  · have named : ¬∀ name, NamesBucket texts name → name = "" :=
      fun nameless => filled (nameless name names)
    simp [known, Value.isEmpty, filled, named]
  · exact ⟨fun _ => nameless, fun _ => empty⟩

def missingKeys (texts : Texts) : List String :=
  ([(accessKeyIdKey, (ofTexts texts).findOrNull accessKeyIdKey),
    (secretKeyIdKey, (ofTexts texts).findOrNull secretKeyIdKey),
    (bucketNameKey, bucketName texts)].filter fun field => field.2.isEmpty).map (·.1)

theorem missingKeys_ne_nil_iff : missingKeys texts ≠ [] ↔ LacksBucket texts := by
  rw [LacksBucket, ← findOrNull_isEmpty_iff, ← findOrNull_isEmpty_iff, ← bucketName_isEmpty_iff,
    or_iff_not_imp_left, or_iff_not_imp_left]
  simp [missingKeys, List.filter_eq_nil_iff]

theorem s3Connection_eq (texts : Texts) : s3Connection (ofTexts texts) (uriOf texts) =
    match missingKeys texts with
    | [] => .ok (.amazonS3 ((ofTexts texts).findOrNull accessKeyIdKey)
        ((ofTexts texts).findOrNull secretKeyIdKey) (bucketName texts)
        (orNull ((ofTexts texts).findOrNull regionKey))
        (orNull ((ofTexts texts).findOrNull endpointUrlKey)))
    | missing => .error (.refused (.missingS3Properties missing)) := rfl

theorem s3Connection_ends (selects : SelectsBucket texts) :
    Ends (HasConnection texts) (IsRefused texts)
      (s3Connection (ofTexts texts) (uriOf texts)) := by
  rw [s3Connection_eq]
  split
  · rename_i none
    have complete : ¬LacksBucket texts := fun lacks => missingKeys_ne_nil_iff.mpr lacks none
    obtain ⟨accessKeyId, access, knownAccess⟩ := (gives_or_lacks texts accessKeyIdKey).resolve_right
      fun ⟨lacks, _⟩ => complete (.inl lacks)
    obtain ⟨secretKeyId, secret, knownSecret⟩ := (gives_or_lacks texts secretKeyIdKey).resolve_right
      fun ⟨lacks, _⟩ => complete (.inr (.inl lacks))
    obtain ⟨name, filled, names, knownName⟩ := (bucketName_cases texts).resolve_right
      fun ⟨_, nameless⟩ => complete (.inr (.inr nameless))
    rw [knownAccess, knownSecret, knownName]
    exact .ok (.amazonS3 selects access secret names filled (hasOptional texts regionKey)
      (hasOptional texts endpointUrlKey))
  · rename_i some_
    exact .error (.of_invalid (.noBucket selects (missingKeys_ne_nil_iff.mp some_)) _)

theorem selectsBucket_iff : SelectsBucket texts ↔
    (namesBucket (uriOf texts) || (ofTexts texts).has bucketNameKey) = true := by
  rw [Fields.has_eq_isSome, find_ofTexts, namesBucket, Text.startsWith, Text.startsWith,
    Option.isSome_map, Bool.or_eq_true, Bool.or_eq_true, List.isPrefixOf_iff_prefix,
    List.isPrefixOf_iff_prefix, Option.isSome_iff_exists, or_assoc]
  rfl

theorem connection_ends (texts : Texts) :
    Ends (HasConnection texts) (IsRefused texts) (connection (ofTexts texts) (uriOf texts)) := by
  unfold connection
  by_cases selects : SelectsBucket texts
  · rw [if_pos (selectsBucket_iff.mp selects)]
    exact s3Connection_ends selects
  · rw [if_neg (mt selectsBucket_iff.mpr selects)]
    exact .ok (.localFiles selects)

theorem ofStrings_listed {paths : List String} (filled : ∀ path ∈ paths, path ≠ "")
    (some_ : paths ≠ []) :
    SourcePaths.ofValue (.ofStrings paths) = .ok (.listed paths) := by
  have notEmpty : (Value.ofStrings paths).isEmpty = false := by
    cases paths with
    | nil => exact absurd rfl some_
    | cons path rest => rfl
  have each : (paths.map Value.str).mapM SourcePaths.checkPath = .ok paths := by
    have checked : ∀ path ∈ paths, (SourcePaths.checkPath ∘ Value.str) path = .ok path := by
      intro path present
      show SourcePaths.checkPath (.str path) = .ok path
      unfold SourcePaths.checkPath
      split
      · rename_i same
        exact absurd (Value.str.inj same) (filled path present)
      · rename_i same
        rw [Value.str.inj same]
      · rename_i other
        exact absurd rfl (other path)
    rw [List.mapM_map, Outcome.mapM_ok checked, List.map_id']
  unfold SourcePaths.ofValue
  rw [if_neg (by simp [notEmpty])]
  show SourcePaths.listed <$> (paths.map Value.str).mapM SourcePaths.checkPath = _
  rw [each]
  rfl

theorem ofValues_parsed (text : String) (connection : Connection) (recursive : Value) (cap : Int) :
    Config.ofValues (.ofStrings (SourcePaths.parse text)) connection recursive (.int cap) =
      if SourcePaths.parse text = [] then .error (.refused .noSourcePath)
      else if cap < 1 then .error (.refused (.notPositive (.int cap)))
      else .ok ⟨.listed (SourcePaths.parse text), connection, recursive, cap⟩ := by
  unfold Config.ofValues
  by_cases none : SourcePaths.parse text = []
  · rw [if_pos none, none]
    rfl
  · rw [if_neg none, ofStrings_listed (fun _ => SourcePaths.ne_empty_of_mem_parse) none]
    show (Config.checkCap (.int cap) >>= _) = _
    rw [Config.checkCap]
    by_cases small : cap < 1
    · rw [if_pos small, if_pos small]
      rfl
    · rw [if_neg small, if_neg small]
      rfl

theorem ofValues_ends {answer : Bool} {cap : Int} {connection : Connection}
    (present : texts.lookup sourcePathsKey = some text) (recursion : HasRecursion texts answer)
    (hasCap : HasCap texts cap) (hasConnection : HasConnection texts connection) :
    Ends (Describes texts) (IsRefused texts)
      (Config.ofValues (.ofStrings (SourcePaths.parse text)) connection (.bool answer) (.int cap)) := by
  rw [ofValues_parsed]
  by_cases none : SourcePaths.parse text = []
  · have blank := SourcePaths.parse_eq_nil_iff.mp none
    rw [if_pos none]
    refine .error (.of_invalid (.noPath fun other known => ?_) .noSourcePath)
    rw [present] at known
    cases known
    exact blank
  · rw [if_neg none]
    by_cases small : cap < 1
    · rw [if_pos small]
      refine .error (.of_invalid ?_ _)
      cases hasCap with
      | standard => omega
      | given gives spells =>
        refine .noCap gives fun other also => ?_
        have same := (Text.integer_eq_some_iff.mpr spells).symm.trans (Text.integer_eq_some_iff.mpr also)
        cases same
        exact small
    · have positive : 1 ≤ cap := by omega
      rw [if_neg small]
      exact .ok ⟨⟨text, _, present, SourcePaths.parse_lists text, none, rfl⟩, ⟨answer, recursion, rfl⟩,
        hasCap, positive, hasConnection⟩

theorem ofTexts_ends (texts : Texts) :
    Ends (Describes texts) (IsRefused texts) (ofValue (.obj (ofTexts texts))) := by
  show Ends _ _ (toConfig (ofTexts texts))
  unfold toConfig
  rw [find_ofTexts]
  cases present : texts.lookup sourcePathsKey with
  | none => exact .error (.of_invalid (.noPath (by simp [present])) _)
  | some text =>
    show Ends _ _ (readBoolean recursiveKey _ >>= _)
    apply (readRecursive_ends texts).bind
    intro answer recursion
    apply (readCap_ends texts).bind
    intro cap hasCap
    rw [readUri_ofTexts]
    apply (connection_ends texts).bind
    intro connection hasConnection
    exact ofValues_ends present recursion hasCap hasConnection

theorem HasConnection.not_lacks {connection : Connection} (has : HasConnection texts connection)
    (selects : SelectsBucket texts) : ¬LacksBucket texts := by
  cases has with
  | localFiles other => exact absurd selects other
  | amazonS3 _ access secret bucket filled =>
    rintro (lacks | lacks | nameless)
    · exact access.not_lacks lacks
    · exact secret.not_lacks lacks
    · exact filled (nameless _ bucket)

theorem Describes.not_invalid {config : Config} (describes : Describes texts config) :
    ¬IsInvalid texts := by
  intro invalid
  cases invalid with
  | noPath blank =>
    obtain ⟨text, paths, present, lists, some_, -⟩ := describes.paths
    apply some_
    rw [← SourcePaths.parse_eq_iff.mpr lists]
    exact SourcePaths.parse_eq_nil_iff.mpr (blank text present)
  | noBoolean present other =>
    obtain ⟨answer, recursion, -⟩ := describes.recursive
    cases recursion with
    | standard absent =>
      rw [present] at absent
      cases absent
    | given known spells =>
      rw [present] at known
      cases known
      exact other _ spells
  | noCap gives other =>
    have positive := describes.positive
    generalize config.cap = cap, describes.cap = hasCap at positive
    cases hasCap with
    | standard lacks => exact gives.not_lacks lacks
    | given known spells =>
      have same := gives.1.symm.trans known.1
      cases same
      have small := other _ spells
      omega
  | noBucket selects lacks => exact describes.connection.not_lacks selects lacks

/-- Properties whose values are texts are refused exactly if they are invalid, fail in no other way, and
    else make the configuration that they describe. -/
theorem ofTexts_exact (texts : Texts) :
    (IsInvalid texts ↔ ∃ refusal, ofValue (.obj (ofTexts texts)) = .error (.refused refusal)) ∧
      (¬IsInvalid texts → ∃ config, ofValue (.obj (ofTexts texts)) = .ok config ∧
        Describes texts config) := by
  have ends := ofTexts_ends texts
  generalize ofValue (.obj (ofTexts texts)) = outcome at ends ⊢
  cases ends with
  | ok describes =>
    have valid := describes.not_invalid
    refine ⟨⟨fun invalid => absurd invalid valid, ?_⟩, fun _ => ⟨_, rfl, describes⟩⟩
    rintro ⟨refusal, fails⟩
    cases fails
  | error refused =>
    obtain ⟨⟨refusal, rfl⟩, invalid⟩ := refused
    exact ⟨⟨fun _ => ⟨refusal, rfl⟩, fun _ => invalid⟩, fun valid => absurd invalid valid⟩

end HarvestPlan.Properties
