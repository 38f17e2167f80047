import HarvestPlan.Proofs.Outcome
import HarvestPlan.Storage.Filesystem

namespace HarvestPlan

inductive Failure.IsOfStorage : Failure → Prop
  | system (error : SystemError) : IsOfStorage (.system error)
  | lost (context : Lost) : IsOfStorage (.lost context)
  | interrupted : IsOfStorage .interrupted
  | wrongKind : IsOfStorage .wrongKind
  | beyondRange : IsOfStorage .beyondRange
  | notANumber : IsOfStorage (.refused .notANumber)

inductive Failure.IsOfNode : Failure → Prop
  | system (error : SystemError) : IsOfNode (.system error)
  | wrongKind : IsOfNode .wrongKind
  | beyondRange : IsOfNode .beyondRange
  | notANumber : IsOfNode (.refused .notANumber)

theorem Failure.IsOfStorage.ofNode {cause : Failure} (own : cause.IsOfNode) :
    cause.IsOfStorage := by
  cases own with
  | system error => exact .system error
  | wrongKind => exact .wrongKind
  | beyondRange => exact .beyondRange
  | notANumber => exact .notANumber

def FailsBy {α : Type} (Own : Failure → Prop) (result : Except Failure α) : Prop :=
  ∀ cause, result = .error cause → Own cause

namespace FailsBy

variable {α β : Type} {Own : Failure → Prop}

theorem ok (a : α) : FailsBy Own (.ok a) := fun _ failed => nomatch failed

theorem error {cause : Failure} (own : Own cause) :
    FailsBy Own (.error cause : Except Failure α) := by
  intro other failed
  cases failed
  exact own

theorem bind {first : Except Failure α} {next : α → Except Failure β} (fails : FailsBy Own first)
    (then_ : ∀ a, FailsBy Own (next a)) : FailsBy Own (first >>= next) := by
  intro cause failed
  rcases Outcome.bind_error failed with failed | ⟨a, -, failed⟩
  · exact fails cause failed
  · exact then_ a cause failed

theorem map {first : Except Failure α} (fails : FailsBy Own first) (f : α → β) :
    FailsBy Own (f <$> first) := fun cause failed => fails cause (Outcome.map_error failed)

theorem weaken {Other : Failure → Prop} {first : Except Failure α} (fails : FailsBy Own first)
    (weaker : ∀ {cause}, Own cause → Other cause) : FailsBy Other first :=
  fun cause failed => weaker (fails cause failed)

end FailsBy

namespace Filesystem

theorem bits_fails (node : Node) : FailsBy Failure.IsOfNode node.bits := by
  unfold Node.bits
  split
  · split
    · exact .ok _
    · exact .error .beyondRange
  · exact .error .beyondRange
  · exact .error .wrongKind

theorem isDirectory_fails (node : Node) : FailsBy Failure.IsOfNode node.isDirectory := (bits_fails node).map _

theorem statusOf_fails (fs : Filesystem) (path : String) (node : Node) :
    FailsBy Failure.IsOfNode (fs.statusOf path node) := by
  have modified : FailsBy Failure.IsOfNode (wholeMilliseconds node.modified) := by
    unfold wholeMilliseconds
    split
    · exact .error .notANumber
    · exact .error .beyondRange
    · exact .ok _
  exact (bits_fails node).bind fun _ => (isDirectory_fails node).bind fun _ =>
    modified.bind fun _ => .ok _

def LookupFault.IsOfNode (fault : LookupFault) : Prop :=
  ∀ path, (fault.failure path).IsOfNode

theorem walkParts_fails {fs : Filesystem} {follow : String → Except LookupFault Node}
    (fails : ∀ target fault, follow target = .error fault → fault.IsOfNode) {path : String}
    {fault : LookupFault} (failed : fs.walkParts follow path = .error fault) :
    fault.IsOfNode := by
  have entering : ∀ node name other, fs.enter follow node name = .error other →
      other.IsOfNode := by
    intro node name other stuck
    unfold enter at stuck
    rcases Outcome.bind_error stuck with stuck | ⟨directory, -, stuck⟩
    · obtain ⟨cause, bad, rfl⟩ := Outcome.mapError_error stuck
      exact fun _ => isDirectory_fails node cause bad
    · cases directory with
      | false =>
        cases stuck
        exact fun _ => .system _
      | true =>
        simp only [Bool.not_true, Bool.false_eq_true, if_false] at stuck
        split at stuck
        · cases stuck
          exact fun _ => .system _
        · split at stuck
          · cases stuck
          · exact fails _ _ stuck
  have folding : ∀ (names : List String) node other,
      names.foldlM (fs.enter follow) node = .error other → other.IsOfNode := by
    intro names
    induction names with
    | nil => exact fun node other stuck => nomatch stuck
    | cons name rest ih =>
      intro node other stuck
      rcases Outcome.bind_error stuck with stuck | ⟨next, -, stuck⟩
      · exact entering node name other stuck
      · exact ih next other stuck
  unfold walkParts at failed
  split at failed
  · cases failed
    exact fun _ => .system _
  · exact folding _ _ _ failed

theorem lookupWithin_fails {fs : Filesystem} (nesting : Nat) {path : String} {fault : LookupFault}
    (failed : fs.lookupWithin nesting path = .error fault) : fault.IsOfNode := by
  induction nesting generalizing path fault with
  | zero =>
    refine walkParts_fails ?_ failed
    intro target other stuck
    cases stuck
    exact fun _ => .system _
  | succ nesting ih => exact walkParts_fails (fun target other stuck => ih stuck) failed

theorem lookup_fails (fs : Filesystem) (path : String) : FailsBy Failure.IsOfNode (fs.lookup path) := by
  intro cause failed
  obtain ⟨fault, stuck, rfl⟩ := Outcome.mapError_error failed
  exact lookupWithin_fails _ stuck path

theorem raise_fails (fault : Option NodeFault) (path : String) :
    FailsBy Failure.IsOfStorage (raise fault path) := by
  rcases fault with _ | (_ | _ | _)
  · exact .ok ()
  · exact .error (.system _)
  · exact .error (.lost _)
  · exact .error .interrupted

theorem stat_fails (fs : Filesystem) (path : String) : FailsBy Failure.IsOfStorage (fs.stat path) :=
  ((lookup_fails fs path).weaken .ofNode).bind fun node =>
    (raise_fails node.statFault path).bind fun _ =>
      (statusOf_fails fs path node).weaken .ofNode

theorem listChildren_fails (fs : Filesystem) (path : String) (children : List Node) :
    FailsBy Failure.IsOfStorage (fs.listChildren path children).children := by
  induction children with
  | nil => exact .ok []
  | cons child rest ih =>
    have looking : FailsBy Failure.IsOfStorage (do
        raise child.lstatFault (childPath path (Path.name child.path))
        fs.statusOf (childPath path (Path.name child.path)) child) :=
      (raise_fails _ _).bind fun _ => (statusOf_fails fs _ child).weaken .ofNode
    unfold listChildren
    simp only
    split
    · exact ih.map _
    · exact ih
    · rename_i failure _ looked
      exact .error (looking failure looked)

theorem list_fails (fs : Filesystem) (path : String) : FailsBy Failure.IsOfStorage (fs.list path).children := by
  have opening : FailsBy Failure.IsOfStorage (fs.openDirectory path) := by
    refine ((lookup_fails fs path).weaken .ofNode).bind fun node =>
      (raise_fails node.listFault path).bind fun _ =>
        ((isDirectory_fails node).weaken .ofNode).bind fun directory => ?_
    cases directory with
    | false => exact .error (.system _)
    | true => exact .ok node
  unfold list
  split
  · rename_i failure opened
    exact .error (opening failure opened)
  · exact (listChildren_fails fs path _).map _

end Filesystem
end HarvestPlan
