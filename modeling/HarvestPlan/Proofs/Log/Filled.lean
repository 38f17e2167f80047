import Mathlib.Data.List.Forall2
import HarvestPlan.Proofs.Log.Directives

namespace HarvestPlan.Template

open Json (Value)

def IsGiven (extent : Option Extent) : Prop :=
  extent = none ∨ ∃ n : Nat, extent = some (.given n) ∧ n ≤ greatestExtent

structure Fits (d : Directive) (s : String) : Prop where
  unnamed : d.key = none
  width : IsGiven d.width
  precision : IsGiven d.precision
  conversion : d.conversion = 's' ∨ d.conversion = 'r' ∨ d.conversion = 'a' ∨
    d.conversion = 'c' ∧ ∃ c, s.toList = [c]

def ofTexts (texts : List String) : Supply := ⟨none, texts.map .str⟩

theorem extentOf_given {extent : Option Extent} (given : IsGiven extent) :
    ∃ n, ∀ supply, extentOf? supply extent = some (n, supply) := by
  rcases given with rfl | ⟨n, rfl, bound⟩
  · exact ⟨none, fun _ => rfl⟩
  · refine ⟨some n, fun supply => ?_⟩
    have small : bounded n = some (n : Int) := if_pos (by simpa using bound)
    rw [extentOf?, small]
    rfl

theorem extentOf_texts {extent : Option Extent} {texts : List String} {n : Option Int} {left : Supply}
    (done : extentOf? (ofTexts texts) extent = some (n, left)) :
    IsGiven extent ∧ left = ofTexts texts := by
  cases extent with
  | none =>
    cases done
    exact ⟨.inl rfl, rfl⟩
  | some extent =>
    cases extent with
    | given m =>
      obtain ⟨k, small, same⟩ := Option.map_eq_some_iff.mp done
      cases same
      refine ⟨.inr ⟨m, rfl, ?_⟩, rfl⟩
      unfold bounded at small
      split at small
      · simpa using ‹_›
      · cases small
    | fromArgument =>
      -- A text is no integer.
      cases texts <;> cases done

theorem character_text_isSome_iff {s : String} :
    (character? (.str s)).isSome = true ↔ ∃ c, s.toList = [c] := by
  unfold character?
  dsimp only
  split
  · rename_i c shape
    simp [shape]
  · rename_i other
    simpa using other

theorem convert_text_isSome_iff {conversion : Char} {alternate : Bool} {precision : Option Nat}
    {s : String} : (convert? conversion alternate precision (.str s)).isSome = true ↔
      conversion = 's' ∨ conversion = 'r' ∨ conversion = 'a' ∨
        conversion = 'c' ∧ ∃ c, s.toList = [c] := by
  unfold convert?
  split <;> simp_all [character_text_isSome_iff, truncated?, integer?, Value.quantity?]

theorem fillDirective_texts {d : Directive} {texts : List String} {text : List Char} {left : Supply}
    (done : fillDirective? (ofTexts texts) d = some (text, left)) :
    ∃ s others, texts = s :: others ∧ Fits d s ∧ left = ofTexts others := by
  obtain ⟨selected, named, done⟩ := Option.bind_eq_some_iff.mp done
  obtain ⟨⟨width, afterWidth⟩, widened, done⟩ := Option.bind_eq_some_iff.mp done
  obtain ⟨⟨precision, afterPrecision⟩, limited, done⟩ := Option.bind_eq_some_iff.mp done
  obtain ⟨⟨value, afterValue⟩, taken, done⟩ := Option.bind_eq_some_iff.mp done
  obtain ⟨converted, conversion, done⟩ := Option.bind_eq_some_iff.mp done
  cases done
  have unnamed : d.key = none ∧ selected = ofTexts texts := by
    unfold Supply.select? at named
    split at named
    · cases named
      exact ⟨‹_›, rfl⟩
    · cases named
  obtain ⟨unnamed, rfl⟩ := unnamed
  obtain ⟨givenWidth, rfl⟩ := extentOf_texts widened
  obtain ⟨givenPrecision, rfl⟩ := extentOf_texts limited
  cases texts with
  | nil => cases taken
  | cons s others =>
    cases taken
    have textual := convert_text_isSome_iff.mp (Option.isSome_iff_exists.mpr ⟨_, conversion⟩)
    exact ⟨s, others, rfl, ⟨unnamed, givenWidth, givenPrecision, textual⟩, rfl⟩

theorem Fits.fillDirective {d : Directive} {s : String} (fits : Fits d s) (others : List String) :
    ∃ text, fillDirective? (ofTexts (s :: others)) d = some (text, ofTexts others) := by
  obtain ⟨width, widthGiven⟩ := extentOf_given fits.width
  obtain ⟨precision, limited⟩ := extentOf_given fits.precision
  obtain ⟨converted, conversion⟩ := Option.isSome_iff_exists.mp
    (@convert_text_isSome_iff d.conversion (widened d.flags width).1.alternate
      (precision.map (·.toNat)) s |>.mpr fits.conversion)
  refine ⟨layOut (widened d.flags width).1 (widened d.flags width).2 converted, ?_⟩
  have selected : (ofTexts (s :: others)).select? d.key = some (ofTexts (s :: others)) := by
    rw [fits.unnamed]
    rfl
  have next : (ofTexts (s :: others)).next? = some (.str s, ofTexts others) := rfl
  simp [fillDirective?, selected, widthGiven, limited, next, conversion]

theorem fillPieces_texts {pieces : List Piece} {texts : List String} {text : List Char} {left : Supply}
    (done : fillPieces? (ofTexts texts) pieces = some (text, left)) :
    ∃ used others, texts = used ++ others ∧ List.Forall₂ Fits (directives pieces) used ∧
      left = ofTexts others := by
  induction pieces generalizing texts text with
  | nil =>
    cases done
    exact ⟨[], texts, rfl, .nil, rfl⟩
  | cons piece pieces ih =>
    cases piece with
    | literal c =>
      obtain ⟨⟨rest, last⟩, later, done⟩ := Option.bind_eq_some_iff.mp done
      cases done
      exact ih later
    | directive d =>
      obtain ⟨⟨here, next⟩, first, done⟩ := Option.bind_eq_some_iff.mp done
      obtain ⟨⟨rest, last⟩, later, done⟩ := Option.bind_eq_some_iff.mp done
      cases done
      obtain ⟨s, others, rfl, fits, rfl⟩ := fillDirective_texts first
      obtain ⟨used, others, rfl, rest, rfl⟩ := ih later
      exact ⟨s :: used, others, rfl, .cons fits rest, rfl⟩

theorem fillPieces_of_fits {pieces : List Piece} {texts : List String}
    (fits : List.Forall₂ Fits (directives pieces) texts) :
    ∃ text, fillPieces? (ofTexts texts) pieces = some (text, ofTexts []) := by
  induction pieces generalizing texts with
  | nil =>
    cases fits
    exact ⟨[], rfl⟩
  | cons piece pieces ih =>
    cases piece with
    | literal c =>
      obtain ⟨text, later⟩ := ih fits
      exact ⟨c :: text, by simp [fillPieces?, later]⟩
    | directive d =>
      cases fits with
      | @cons _ s _ others here rest =>
        obtain ⟨front, first⟩ := here.fillDirective others
        obtain ⟨text, later⟩ := ih rest
        exact ⟨front ++ text, by simp [fillPieces?, first, later]⟩

theorem Fits.plain {d : Directive} {s : String} (fits : Fits d s) :
    d.key = none ∧ isDirectiveChar d.conversion = true := by
  refine ⟨fits.unnamed, ?_⟩
  rcases fits.conversion with same | same | same | ⟨same, -⟩ <;> rw [same] <;> decide

/-- A template has a text with texts for its arguments exactly if they fit its directives one by
    one. -/
theorem fill_texts_isSome_iff {template : String} {texts : List String} :
    (fill? template (.arr (texts.map .str))).isSome = true ↔
      ∃ ds, IsTemplate template.toList ds ∧ List.Forall₂ Fits ds texts := by
  rw [Option.isSome_iff_exists]
  constructor
  · rintro ⟨text, done⟩
    obtain ⟨pieces, read, done⟩ := Option.bind_eq_some_iff.mp done
    obtain ⟨⟨chars, left⟩, filled, done⟩ := Option.bind_eq_some_iff.mp done
    obtain ⟨used, others, rfl, fits, rfl⟩ := fillPieces_texts filled
    have none : others = [] := by
      dsimp only at done
      split at done
      · rename_i spent
        simpa [ofTexts] using spent
      · cases done
    rw [none, List.append_nil]
    have plain := Lists.forall_left fits fun _ _ => Fits.plain
    exact ⟨directives pieces, isTemplate_of_read read plain, fits⟩
  · rintro ⟨ds, isTemplate, fits⟩
    obtain ⟨pieces, read, rfl⟩ := isTemplate.read (Nat.le_refl _)
    obtain ⟨text, filled⟩ := fillPieces_of_fits fits
    refine ⟨String.ofList text, ?_⟩
    have supplied : Supply.ofValue (.arr (texts.map .str)) = ofTexts texts := rfl
    have spent : (ofTexts []).pending = [] := rfl
    simp [fill?, supplied, read?, read, filled, spent]

end HarvestPlan.Template
