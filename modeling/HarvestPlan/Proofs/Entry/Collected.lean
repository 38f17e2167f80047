import HarvestPlan.Entry.Record
import HarvestPlan.Proofs.Outcome

namespace HarvestPlan

open Json (Value)

def Collects {α : Type} (outcome : Except EntryFault α) : Prop :=
  ∀ fault, outcome = .error fault → fault.isCollected = true

namespace Collects

variable {α β : Type}

theorem ok (a : α) : Collects (.ok a) := by
  intro fault failed
  cases failed

theorem error {fault : EntryFault} (collected : fault.isCollected = true) :
    Collects (.error fault : Except EntryFault α) := by
  intro other failed
  cases failed
  exact collected

theorem bind {first : Except EntryFault α} {next : α → Except EntryFault β}
    (collects : Collects first) (then_ : ∀ a, first = .ok a → Collects (next a)) :
    Collects (first >>= next) := by
  intro fault failed
  rcases Outcome.bind_error failed with failed | ⟨a, done, failed⟩
  · exact collects fault failed
  · exact then_ a done fault failed

end Collects

theorem backendOfTag_collects (tag : Value) : Collects (backendOfTag tag) := by
  unfold backendOfTag
  split
  · exact .error rfl
  · split
    · split
      · exact .ok _
      · exact .error rfl
    · exact .error rfl

theorem Credentials.toFields_collects (credentials : Credentials) :
    Collects credentials.toFields := by
  unfold toFields
  refine (backendOfTag_collects _).bind fun backend _ => ?_
  cases credentials with
  | localFiles | amazonS3 => exact .ok _
  | foreign | tagless => exact .error rfl

theorem Entry.toRecord_collects (entry : Entry) : Collects entry.toRecord :=
  entry.credentials.toFields_collects.bind fun _ _ => .ok _

end HarvestPlan
