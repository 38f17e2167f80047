import Mathlib.Data.List.TakeWhile
import HarvestPlan.BasePath

namespace HarvestPlan

namespace Text

variable {pattern before after text found : List Char}

theorem fromFirst_of_prefix (isPrefix : pattern <+: text) (some_ : text ≠ []) :
    fromFirst? pattern text = some text := by
  cases text with
  | nil => exact absurd rfl some_
  | cons c cs => simp [fromFirst?, List.isPrefixOf_iff_prefix.mpr isPrefix]

theorem fromFirst_eq_none_iff : fromFirst? pattern text = none ↔ ¬pattern <:+: text := by
  induction text with
  | nil => simp [fromFirst?, List.isEmpty_iff]
  | cons c cs ih =>
    unfold fromFirst?
    rw [List.infix_cons_iff, not_or, ← ih, ← List.isPrefixOf_iff_prefix]
    split
    · simp_all
    · simp_all

theorem fromFirst_isSome_iff : (fromFirst? pattern text).isSome = true ↔ pattern <:+: text := by
  rw [Option.isSome_iff_ne_none, ne_eq, fromFirst_eq_none_iff, Classical.not_not]

theorem fromFirst_append (first : ¬pattern <:+: before ++ pattern.dropLast) (after : List Char) :
    fromFirst? pattern (before ++ (pattern ++ after)) = some (pattern ++ after) := by
  induction before with
  | nil =>
    rw [List.nil_append] at first ⊢
    refine fromFirst_of_prefix (List.prefix_append _ _) fun none => first ?_
    obtain ⟨rfl, -⟩ := List.append_eq_nil_iff.mp none
    exact List.infix_rfl
  | cons c before ih =>
    rw [List.cons_append, List.infix_cons_iff, not_or] at first
    have short : pattern.length ≤ (c :: (before ++ pattern.dropLast)).length := by
      simp only [List.length_cons, List.length_append, List.length_dropLast]
      omega
    have shorter : c :: (before ++ pattern.dropLast) <+: c :: (before ++ (pattern ++ after)) := by
      rw [List.prefix_cons_inj, List.prefix_append_right_inj]
      exact (List.dropLast_prefix pattern).trans (List.prefix_append _ _)
    have later : ¬pattern <+: c :: (before ++ (pattern ++ after)) :=
      fun here => first.1 (List.prefix_of_prefix_length_le here shorter short)
    rw [List.cons_append, fromFirst?, if_neg (mt List.isPrefixOf_iff_prefix.mp later)]
    exact ih first.2

theorem fromFirst_eq_some (here : fromFirst? pattern text = some found) (filled : pattern ≠ []) :
    ∃ before after, text = before ++ (pattern ++ after) ∧ found = pattern ++ after ∧
      ¬pattern <:+: before ++ pattern.dropLast := by
  induction text with
  | nil => simp [fromFirst?, filled] at here
  | cons c cs ih =>
    unfold fromFirst? at here
    split at here
    · rename_i leads
      obtain ⟨after, shape⟩ := List.isPrefixOf_iff_prefix.mp leads
      cases here
      refine ⟨[], after, shape.symm, shape.symm, fun occurs => ?_⟩
      have short := occurs.length_le
      rw [List.nil_append, List.length_dropLast] at short
      have long := List.length_pos_iff.mpr filled
      omega
    · rename_i other
      obtain ⟨before, after, rfl, rfl, first⟩ := ih here
      refine ⟨c :: before, after, rfl, rfl, ?_⟩
      rw [List.cons_append, List.infix_cons_iff, not_or]
      refine ⟨fun leads => other (List.isPrefixOf_iff_prefix.mpr (leads.trans ?_)), first⟩
      rw [List.prefix_cons_inj, List.prefix_append_right_inj]
      exact (List.dropLast_prefix pattern).trans (List.prefix_append _ _)

end Text

namespace BasePath

open Text (fromFirst?)

def mark : List Char := [':', '/', '/']

/-- The path of a text. One that names a scheme and an authority has as its path what follows them,
    or the root if nothing does. -/
inductive HasPath : List Char → List Char → Prop
  | plain {text : List Char} (unmarked : ¬mark <:+: text) : HasPath text text
  | located {scheme authority path : List Char} (first : ¬mark <:+: scheme ++ mark.dropLast)
      (free : '/' ∉ authority) : HasPath (scheme ++ (mark ++ (authority ++ '/' :: path))) ('/' :: path)
  | bare {scheme authority : List Char} (first : ¬mark <:+: scheme ++ mark.dropLast)
      (free : '/' ∉ authority) : HasPath (scheme ++ (mark ++ authority)) ['/']

theorem all_notSlash {authority : List Char} (free : '/' ∉ authority) :
    ∀ c ∈ authority, (!isSlash c) = true := by
  intro c present
  have other : c ≠ '/' := fun same => free (same ▸ present)
  simpa [isSlash] using other

theorem withoutAuthority_of_found {text after : List Char}
    (found : fromFirst? mark text = some (mark ++ after)) :
    withoutAuthority text = match after.dropWhile (!isSlash ·) with
      | [] => ['/']
      | rest => rest := by
  unfold withoutAuthority
  rw [← mark, found]
  rfl

theorem HasPath.withoutAuthority {text path : List Char} (has : HasPath text path) :
    withoutAuthority text = path := by
  cases has with
  | plain unmarked =>
    unfold BasePath.withoutAuthority
    rw [← mark, Text.fromFirst_eq_none_iff.mpr unmarked]
  | @located scheme authority path first free =>
    rw [withoutAuthority_of_found (Text.fromFirst_append first _),
      List.dropWhile_append_of_pos (all_notSlash free)]
    simp [isSlash]
  | @bare scheme authority first free =>
    rw [withoutAuthority_of_found (Text.fromFirst_append first _),
      List.dropWhile_eq_nil_iff.mpr (all_notSlash free)]

theorem hasPath_withoutAuthority (text : List Char) : HasPath text (withoutAuthority text) := by
  by_cases marked : mark <:+: text
  · obtain ⟨found, here⟩ := Option.isSome_iff_exists.mp (Text.fromFirst_isSome_iff.mpr marked)
    obtain ⟨scheme, after, rfl, -, first⟩ := Text.fromFirst_eq_some here (by simp [mark])
    have cut := List.takeWhile_append_dropWhile (p := (!isSlash ·)) (l := after)
    have free : '/' ∉ after.takeWhile (!isSlash ·) := by
      intro present
      simpa [isSlash] using List.mem_takeWhile_imp present
    cases rest : after.dropWhile (!isSlash ·) with
    | nil =>
      rw [rest, List.append_nil] at cut
      rw [cut] at free
      have has := HasPath.bare first free
      rwa [has.withoutAuthority]
    | cons c path =>
      have slash := List.head?_dropWhile_not (!isSlash ·) after
      rw [rest] at slash
      obtain rfl : c = '/' := by simpa [isSlash] using slash
      rw [rest] at cut
      rw [← cut]
      have has : HasPath (_ ++ (mark ++ (_ ++ '/' :: path))) ('/' :: path) := .located first free
      rwa [has.withoutAuthority]
  · have has := HasPath.plain marked
    rwa [has.withoutAuthority]

end BasePath
end HarvestPlan
