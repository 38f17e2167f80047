import Mathlib.Data.List.Forall2
import HarvestPlan.Proofs.Outcome

namespace HarvestPlan

/-- Both go through, to results that are related, or both fail by the same cause. -/
inductive Outcome.Beside {ε α β : Type} (R : α → β → Prop) : Except ε α → Except ε β → Prop
  | ok {a : α} {b : β} (related : R a b) : Beside R (.ok a) (.ok b)
  | error (cause : ε) : Beside R (.error cause) (.error cause)

namespace Outcome.Beside

variable {ε ε' α β γ : Type} {R : α → β → Prop}

theorem bind {γ' : Type} {S : γ → γ' → Prop} {first : Except ε α} {second : Except ε β}
    {next : α → Except ε γ} {following : β → Except ε γ'} (start : Beside R first second)
    (go : ∀ a b, R a b → Beside S (next a) (following b)) :
    Beside S (first >>= next) (second >>= following) := by
  cases start with
  | ok related => exact go _ _ related
  | error cause => exact .error cause

theorem mapError {first : Except ε α} {second : Except ε β} (start : Beside R first second)
    (f : ε → ε') : Beside R (first.mapError f) (second.mapError f) := by
  cases start with
  | ok related => exact .ok related
  | error cause => exact .error (f cause)

theorem foldlM₂ {γ' : Type} {I : γ → γ' → Prop} {f : α → γ → Except ε α} {g : β → γ' → Except ε β}
    (step : ∀ a b item other, R a b → I item other → Beside R (f a item) (g b other))
    {items : List γ} {others : List γ'} (alike : items.Forall₂ I others) {a : α} {b : β}
    (related : R a b) : Beside R (items.foldlM f a) (others.foldlM g b) := by
  induction alike generalizing a b with
  | nil => exact .ok related
  | cons same _ ih =>
    rw [List.foldlM_cons, List.foldlM_cons]
    exact (step a b _ _ related same).bind fun next following relatedNext => ih relatedNext

theorem foldlM {f : α → γ → Except ε α} {g : β → γ → Except ε β}
    (step : ∀ a b item, R a b → Beside R (f a item) (g b item)) (items : List γ) {a : α} {b : β}
    (related : R a b) : Beside R (items.foldlM f a) (items.foldlM g b) := by
  have alike : items.Forall₂ Eq items := List.forall₂_refl items
  refine foldlM₂ ?_ alike related
  rintro a b item _ related rfl
  exact step a b item related

theorem map_eq {f : α → β} {first : Except ε α} {second : Except ε β}
    (beside : Beside (fun a b => b = f a) first second) : second = f <$> first := by
  cases beside with
  | ok related =>
    rw [related]
    rfl
  | error cause => rfl

theorem eq {first second : Except ε α} (beside : Beside (fun a b => b = a) first second) :
    second = first := by
  cases beside with
  | ok related => rw [related]
  | error cause => rfl

end Outcome.Beside

end HarvestPlan
