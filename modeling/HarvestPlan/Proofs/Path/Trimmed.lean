import Mathlib.Data.List.Induction
import Mathlib.Data.List.TakeWhile
import HarvestPlan.Proofs.Lists
import HarvestPlan.Text.Trim

namespace HarvestPlan.Text

variable {drop : Char → Bool} {cs : List Char} {c : Char}

@[simp] theorem trimEnd_concat_of_dropped (dropped : drop c = true) (cs : List Char) :
    trimEnd drop (cs ++ [c]) = trimEnd drop cs := by
  simp [trimEnd, dropped]

@[simp] theorem trimEnd_concat_of_kept (kept : drop c = false) (cs : List Char) :
    trimEnd drop (cs ++ [c]) = cs ++ [c] := by
  simp [trimEnd, kept]

theorem trimEnd_eq_self (ends : ∀ c, cs.getLast? = some c → drop c = false) :
    trimEnd drop cs = cs := by
  rcases List.eq_nil_or_concat cs with rfl | ⟨start, last, rfl⟩
  · rfl
  · rw [List.concat_eq_append, trimEnd_concat_of_kept (ends last (by simp))]

theorem trimEnd_isPrefix (drop : Char → Bool) (cs : List Char) : trimEnd drop cs <+: cs := by
  have dropped := List.reverse_prefix.mpr (List.dropWhile_suffix drop (l := cs.reverse))
  rwa [List.reverse_reverse] at dropped

theorem mem_of_mem_trimEnd (present : c ∈ trimEnd drop cs) : c ∈ cs := by
  have held := (List.dropWhile_sublist drop).subset (List.mem_reverse.mp present)
  exact List.mem_reverse.mp held

theorem trim_cons_of_dropped (dropped : drop c = true) (cs : List Char) :
    trim drop (c :: cs) = trim drop cs := by
  simp [trim, dropped]

theorem trim_concat_of_dropped (dropped : drop c = true) (cs : List Char) :
    trim drop (cs ++ [c]) = trim drop cs := by
  unfold trim
  by_cases all : ∀ d ∈ cs, drop d = true
  · rw [List.dropWhile_append_of_pos all, List.dropWhile_eq_nil_iff.mpr all]
    simp [dropped]
  · have some_ : cs.dropWhile drop ≠ [] := mt List.dropWhile_eq_nil_iff.mp all
    rw [List.dropWhile_append, if_neg (by simpa using some_), trimEnd_concat_of_dropped dropped]

structure IsTrimmed (drop : Char → Bool) (core : List Char) : Prop where
  opens : ∀ c, core.head? = some c → drop c = false
  ends : ∀ c, core.getLast? = some c → drop c = false

def Surrounds (drop : Char → Bool) (core cs : List Char) : Prop :=
  ∃ before after, (∀ c ∈ before, drop c = true) ∧ (∀ c ∈ after, drop c = true) ∧
    cs = before ++ (core ++ after)

theorem trimEnd_surrounds (drop : Char → Bool) (cs : List Char) :
    ∃ after, (∀ c ∈ after, drop c = true) ∧ cs = trimEnd drop cs ++ after := by
  have parts := List.takeWhile_append_dropWhile (p := drop) (l := cs.reverse)
  refine ⟨(cs.reverse.takeWhile drop).reverse, ?_, ?_⟩
  · intro c present
    exact List.mem_takeWhile_imp (List.mem_reverse.mp present)
  · show cs = (cs.reverse.dropWhile drop).reverse ++ (cs.reverse.takeWhile drop).reverse
    rw [← List.reverse_append, parts, List.reverse_reverse]

theorem trim_surrounds (drop : Char → Bool) (cs : List Char) :
    Surrounds drop (trim drop cs) cs := by
  obtain ⟨after, dropped, shape⟩ := trimEnd_surrounds drop (cs.dropWhile drop)
  refine ⟨cs.takeWhile drop, after, fun _ => List.mem_takeWhile_imp, dropped, ?_⟩
  rw [trim, ← shape, List.takeWhile_append_dropWhile]

theorem trim_isTrimmed (drop : Char → Bool) (cs : List Char) : IsTrimmed drop (trim drop cs) := by
  constructor
  · intro c first
    obtain ⟨rest, shape⟩ := trimEnd_isPrefix drop (cs.dropWhile drop)
    have opens := List.head?_dropWhile_not drop cs
    rw [← shape, List.head?_append, show (trimEnd drop _).head? = some c from first] at opens
    simpa using opens
  · intro c last
    have ends := List.head?_dropWhile_not drop (cs.dropWhile drop).reverse
    rw [trim, trimEnd, List.getLast?_reverse] at last
    rw [last] at ends
    simpa using ends

theorem trim_of_surrounds {core : List Char} (trimmed : IsTrimmed drop core)
    (around : Surrounds drop core cs) : trim drop cs = core := by
  obtain ⟨before, after, dropped, dropped', rfl⟩ := around
  induction before with
  | cons c before ih =>
    rw [List.cons_append, trim_cons_of_dropped (dropped c List.mem_cons_self)]
    exact ih fun d present => dropped d (List.mem_cons_of_mem _ present)
  | nil =>
    rw [List.nil_append]
    induction after using List.reverseRecOn with
    | nil =>
      rw [List.append_nil, trim, trimEnd_eq_self]
      · exact Lists.dropWhile_of_stops trimmed.opens
      · rw [Lists.dropWhile_of_stops trimmed.opens]
        exact trimmed.ends
    | append_singleton after c ih =>
      have last : drop c = true := dropped' c (by simp)
      rw [← List.append_assoc, trim_concat_of_dropped last]
      exact ih fun d present => dropped' d (List.mem_append_left _ present)

theorem trim_eq_iff {core : List Char} :
    trim drop cs = core ↔ IsTrimmed drop core ∧ Surrounds drop core cs := by
  constructor
  · rintro rfl
    exact ⟨trim_isTrimmed drop cs, trim_surrounds drop cs⟩
  · exact fun ⟨trimmed, around⟩ => trim_of_surrounds trimmed around

theorem trim_eq_nil_iff : trim drop cs = [] ↔ ∀ c ∈ cs, drop c = true := by
  rw [trim_eq_iff]
  constructor
  · rintro ⟨-, before, after, dropped, dropped', rfl⟩ c present
    exact (List.mem_append.mp present).elim (dropped c) (dropped' c)
  · intro dropped
    exact ⟨⟨nofun, nofun⟩, cs, [], dropped, nofun, by simp⟩

end HarvestPlan.Text
