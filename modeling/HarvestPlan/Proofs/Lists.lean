import Mathlib.Data.List.Forall2
import Mathlib.Data.List.Perm.Basic
import HarvestPlan.Proofs.Outcome

namespace HarvestPlan.Lists

variable {α β γ : Type}

theorem exists_left {R : α → β → Prop} {left : List α} {right : List β}
    (beside : left.Forall₂ R right) {b : β} (present : b ∈ right) : ∃ a ∈ left, R a b := by
  induction beside with
  | nil => cases present
  | @cons a c left right same _ ih =>
    rcases List.mem_cons.mp present with rfl | present
    · exact ⟨a, by simp, same⟩
    · obtain ⟨found, held, foundSame⟩ := ih present
      exact ⟨found, List.mem_cons_of_mem _ held, foundSame⟩

theorem exists_middle {R : α → β → Prop} {before after : List α} {a : α} {right : List β}
    (beside : (before ++ a :: after).Forall₂ R right) :
    ∃ front b back, right = front ++ b :: back ∧ before.Forall₂ R front ∧ R a b ∧
      after.Forall₂ R back := by
  induction before generalizing right with
  | nil =>
    cases beside with
    | cons same rest => exact ⟨[], _, _, rfl, .nil, same, rest⟩
  | cons first before ih =>
    cases beside with
    | cons firstSame rest =>
      obtain ⟨front, b, back, rfl, frontSame, same, backSame⟩ := ih rest
      exact ⟨_ :: front, b, back, rfl, .cons firstSame frontSame, same, backSame⟩

theorem compose {R : α → β → Prop} {S : β → γ → Prop} {T : α → γ → Prop} {left : List α}
    {middle : List β} {right : List γ} (first : left.Forall₂ R middle)
    (second : middle.Forall₂ S right) (both : ∀ a b c, R a b → S b c → T a c) :
    left.Forall₂ T right := by
  induction first generalizing right with
  | nil =>
    cases second
    exact .nil
  | cons same _ ih =>
    cases second with
    | cons otherSame rest => exact .cons (both _ _ _ same otherSame) (ih rest)

theorem exists_beside {R : α → β → Prop} {right : List β} (each : ∀ b ∈ right, ∃ a, R a b) :
    ∃ left : List α, left.Forall₂ R right := by
  induction right with
  | nil => exact ⟨[], .nil⟩
  | cons b rest ih =>
    obtain ⟨a, same⟩ := each b (by simp)
    obtain ⟨left, beside⟩ := ih fun other present => each other (List.mem_cons_of_mem _ present)
    exact ⟨a :: left, .cons same beside⟩

theorem forall_left {R : α → β → Prop} {P : α → Prop} {left : List α} {right : List β}
    (beside : left.Forall₂ R right) (each : ∀ a b, R a b → P a) : ∀ a ∈ left, P a := by
  induction beside with
  | nil => simp
  | cons same _ ih =>
    intro a present
    rcases List.mem_cons.mp present with rfl | present
    · exact each _ _ same
    · exact ih a present

theorem map_eq_map {δ : Type} {R : α → β → Prop} {f : α → δ} {g : β → δ} {left : List α}
    {right : List β} (beside : left.Forall₂ R right) (each : ∀ a b, R a b → f a = g b) :
    left.map f = right.map g := by
  induction beside with
  | nil => rfl
  | cons same _ ih => rw [List.map_cons, List.map_cons, each _ _ same, ih]

theorem exists_perm_beside {R : α → β → Prop} {left : List α} {right other : List β}
    (beside : left.Forall₂ R right) (perm : right.Perm other) :
    ∃ moved, left.Perm moved ∧ moved.Forall₂ R other := by
  have both : Relation.Comp (List.Forall₂ R) List.Perm left other := ⟨right, beside, perm⟩
  rwa [List.forall₂_comp_perm_eq_perm_comp_forall₂] at both

theorem find?_beside {R : α → β → Prop} {p : α → Bool} {q : β → Bool} {left : List α}
    {right : List β} (beside : left.Forall₂ R right) (each : ∀ a b, R a b → p a = q b) :
    Option.Rel R (left.find? p) (right.find? q) := by
  induction beside with
  | nil => exact .none
  | @cons a b _ _ same _ ih =>
    rw [List.find?_cons, List.find?_cons, each a b same]
    cases q b with
    | true => exact .some same
    | false => exact ih

theorem forall₂_of_mapM {ε : Type} {f : α → Except ε β} {left : List α} {right : List β}
    (done : left.mapM f = .ok right) : left.Forall₂ (fun a b => f a = .ok b) right := by
  induction left generalizing right with
  | nil =>
    cases done
    exact .nil
  | cons a rest ih =>
    rw [List.mapM_cons] at done
    obtain ⟨b, here, done⟩ := Outcome.bind_ok done
    obtain ⟨others, later, done⟩ := Outcome.bind_ok done
    cases done
    exact .cons here (ih later)

theorem flatMap_filter {keep : α → Bool} {g : α → List β} {items : List α}
    (empty : ∀ a ∈ items, keep a = false → g a = []) :
    (items.filter keep).flatMap g = items.flatMap g := by
  induction items with
  | nil => rfl
  | cons a rest ih =>
    have later := ih fun other present => empty other (List.mem_cons_of_mem _ present)
    cases kept : keep a with
    | true => simp [kept, later]
    | false => simp [kept, later, empty a List.mem_cons_self kept]

theorem flatMap_filter_perm {keep : α → Bool} {f : α → β} {g : α → List β} {items : List α}
    (single : ∀ a ∈ items, keep a = false → g a = [f a]) :
    ((items.filter fun a => !keep a).map f ++ (items.filter keep).flatMap g).Perm
      (items.flatMap g) := by
  have dropped : (items.filter fun a => !keep a).map f =
      (items.filter fun a => !keep a).flatMap g := by
    rw [List.map_eq_flatMap]
    refine List.flatMap_congr fun a present => ?_
    obtain ⟨held, out⟩ := List.mem_filter.mp present
    exact (single a held (by simpa using out)).symm
  rw [dropped, ← List.flatMap_append]
  exact (List.perm_append_comm.trans (List.filter_append_perm keep items)).flatMap_right g

theorem flatMap_perm {R : α → β → Prop} {f : α → List γ} {g : β → List γ} {left : List α}
    {right : List β} (beside : left.Forall₂ R right) (each : ∀ a b, R a b → (f a).Perm (g b)) :
    (left.flatMap f).Perm (right.flatMap g) := by
  induction beside with
  | nil => exact .refl _
  | cons same _ ih => exact (each _ _ same).append ih

theorem exists_bound (measure : α → Nat) (items : List α) :
    ∃ bound, ∀ a ∈ items, measure a < bound := by
  induction items with
  | nil => exact ⟨0, by simp⟩
  | cons a rest ih =>
    obtain ⟨bound, below⟩ := ih
    refine ⟨max (measure a + 1) bound, ?_⟩
    intro b present
    rcases List.mem_cons.mp present with rfl | present
    · omega
    · have less := below b present
      omega

section Span

variable {keep : α → Bool} {items rest : List α}

theorem dropWhile_of_stops (stops : ∀ a, rest.head? = some a → keep a = false) :
    rest.dropWhile keep = rest := by
  cases rest with
  | nil => rfl
  | cons a rest => exact List.dropWhile_cons_of_neg (by simp [stops a rfl])

theorem dropWhile_span (all : ∀ a ∈ items, keep a = true)
    (stops : ∀ a, rest.head? = some a → keep a = false) :
    (items ++ rest).dropWhile keep = rest := by
  rw [List.dropWhile_append_of_pos all, dropWhile_of_stops stops]

theorem takeWhile_span (all : ∀ a ∈ items, keep a = true)
    (stops : ∀ a, rest.head? = some a → keep a = false) :
    (items ++ rest).takeWhile keep = items := by
  rw [List.takeWhile_append_of_pos all]
  cases rest with
  | nil => simp
  | cons a rest => simp [stops a rfl]

theorem exists_stop (other : ¬∀ a ∈ items, keep a = true) :
    ∃ before a after, items = before ++ a :: after ∧ (∀ b ∈ before, keep b = true) ∧
      keep a = false := by
  induction items with
  | nil => simp at other
  | cons a items ih =>
    cases here : keep a with
    | false => exact ⟨[], a, items, rfl, by simp, here⟩
    | true =>
      rw [List.forall_mem_cons, not_and] at other
      obtain ⟨before, b, after, rfl, all, stops⟩ := ih (other here)
      exact ⟨a :: before, b, after, rfl, List.forall_mem_cons.mpr ⟨here, all⟩, stops⟩

end Span

section Once

variable {f : α → β} {before after : List α} {a : α}

theorem ne_of_once (once : ((before ++ a :: after).map f).Nodup) :
    ∀ b ∈ before ++ after, f b ≠ f a := by
  simp only [List.map_append, List.map_cons, List.nodup_append, List.nodup_cons] at once
  obtain ⟨-, ⟨notAfter, -⟩, notBefore⟩ := once
  intro b present same
  rcases List.mem_append.mp present with present | present
  · exact notBefore (f b) (List.mem_map_of_mem present) (f a) List.mem_cons_self same
  · exact notAfter (same ▸ List.mem_map_of_mem present)

theorem filter_other [DecidableEq β] (once : ((before ++ a :: after).map f).Nodup) :
    (before ++ a :: after).filter (fun b => !(f b == f a)) = before ++ after := by
  have others : (before ++ after).filter (fun b => !(f b == f a)) = before ++ after :=
    List.filter_eq_self.mpr fun b present => by simpa using ne_of_once once b present
  rw [List.filter_append] at others ⊢
  simpa using others

theorem filter_same [DecidableEq β] (once : ((before ++ a :: after).map f).Nodup) :
    (before ++ a :: after).filter (fun b => f b == f a) = [a] := by
  have others : (before ++ after).filter (fun b => f b == f a) = [] :=
    List.filter_eq_nil_iff.mpr fun b present => by simpa using ne_of_once once b present
  rw [List.filter_append, List.append_eq_nil_iff] at others
  simp [others.1, others.2]

end Once

end HarvestPlan.Lists
