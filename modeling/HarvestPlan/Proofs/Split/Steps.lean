import Mathlib.Data.List.Induction
import HarvestPlan.Proofs.Split.Accounted
import HarvestPlan.Proofs.Split.Filled

namespace HarvestPlan.Split

open Json (Value)

inductive Step where
  | offer (member : Member)
  | finalize
deriving DecidableEq

def take (split : Split) : Step → Split × Except Failure Unit
  | .offer member => split.add member
  | .finalize => (split.finalize, .ok ())

def afterStep (split : Split) (step : Step) : Split := (split.take step).1

def after (split : Split) (steps : List Step) : Split := steps.foldl afterStep split

/-- The members that are offered before the split is finalized. -/
def offered : List Step → List Member
  | [] | .finalize :: _ => []
  | .offer member :: rest => member :: offered rest

def acceptedBy (split : Split) : Step → List Member
  | .offer member => match (split.add member).2 with
    | .ok () => [member]
    | .error _ => []
  | .finalize => []

def accepted (split : Split) : List Step → List Member
  | [] => []
  | step :: rest => split.acceptedBy step ++ (split.afterStep step).accepted rest

variable {split : Split} {member : Member} {steps : List Step} {step : Step} {index : Value}

theorem after_concat (split : Split) (steps : List Step) (step : Step) :
    split.after (steps ++ [step]) = (split.after steps).afterStep step := by
  rw [after, List.foldl_append]
  rfl

theorem accepted_concat (split : Split) (steps : List Step) (step : Step) :
    split.accepted (steps ++ [step]) =
      split.accepted steps ++ (split.after steps).acceptedBy step := by
  induction steps generalizing split with
  | nil => simp [accepted, after]
  | cons first rest ih =>
    rw [List.cons_append, accepted, ih, accepted, List.append_assoc]
    rfl

theorem offered_concat_of_open (opened : .finalize ∉ steps) (step : Step) :
    offered (steps ++ [step]) = offered steps ++ offered [step] := by
  induction steps with
  | nil => rfl
  | cons first rest ih =>
    cases first with
    | finalize => exact absurd List.mem_cons_self opened
    | offer member =>
      have later : .finalize ∉ rest := fun present => opened (List.mem_cons_of_mem _ present)
      rw [List.cons_append, offered, ih later, offered, List.cons_append]

theorem offered_concat_of_closed (closed : .finalize ∈ steps) (step : Step) :
    offered (steps ++ [step]) = offered steps := by
  induction steps with
  | nil => cases closed
  | cons first rest ih =>
    cases first with
    | finalize => rfl
    | offer member =>
      have later : .finalize ∈ rest := (List.mem_cons.mp closed).resolve_left nofun
      rw [List.cons_append, offered, ih later, offered]

def sumWith? (split : Split) (member : Member) : Option Quantity :=
  member.size?.bind split.totalBytes.add?

/-- The member taken in and counted; the total does not know of it. -/
def counting (split : Split) (member : Member) : Split where
  index := split.index
  members := split.members.push member
  load := .int (split.size + 1)
  totalBytes := split.totalBytes
  finalized := split.finalized

inductive Offers (split : Split) (member : Member) : Split × Except Failure Unit → Prop
  | closed (finalized : split.finalized = true) :
      Offers split member (split, .error (.splitFinalized split.index))
  | counted {failure : Failure} (opened : split.finalized = false)
      (lost : split.sumWith? member = none)
      (cause : failure = if member.size? = none then .lacksOperation else .beyondRange) :
      Offers split member (split.counting member, .error failure)
  | taken {total : Quantity} (opened : split.finalized = false)
      (summed : split.sumWith? member = some total) :
      Offers split member ({ split.counting member with totalBytes := total }, .ok ())

theorem add_offers (load : split.load = .int split.size) (member : Member) :
    Offers split member (split.add member) := by
  cases finalized : split.finalized with
  | true =>
    rw [add, if_pos finalized]
    exact .closed finalized
  | false =>
    have open_ : ¬split.finalized = true := by simp [finalized]
    rw [add, if_neg open_, load]
    dsimp only [nextLoad]
    cases weighs : member.size? with
    | none =>
      have lost : split.sumWith? member = none := by simp [sumWith?, weighs]
      exact .counted finalized lost (if_pos weighs).symm
    | some size =>
      dsimp only
      cases summed : split.totalBytes.add? size with
      | none =>
        have lost : split.sumWith? member = none := by simp [sumWith?, weighs, summed]
        exact .counted finalized lost (if_neg (by simp [weighs])).symm
      | some total =>
        have known : split.sumWith? member = some total := by simp [sumWith?, weighs, summed]
        exact .taken finalized known

theorem afterStep_of_finalized (finalized : split.finalized = true) (step : Step) :
    split.afterStep step = split := by
  cases step with
  | offer member =>
    show (split.add member).1 = split
    rw [add, if_pos finalized]
  | finalize =>
    show split.finalize = split
    rw [finalize, ← finalized]

theorem acceptedBy_of_finalized (finalized : split.finalized = true) (step : Step) :
    split.acceptedBy step = [] := by
  cases step with
  | offer member => simp [acceptedBy, add, finalized]
  | finalize => rfl

theorem sum_append (total : Quantity) (first rest : List Member) :
    sum? total (first ++ rest) = (sum? total first).bind fun next => sum? next rest :=
  List.foldlM_append

theorem sum_concat (total : Quantity) (first : List Member) (member : Member) :
    sum? total (first ++ [member]) =
      (sum? total first).bind fun next => member.size?.bind next.add? := by
  rw [sum_append]
  congr 1
  funext next
  rw [sum_cons]
  exact Option.bind_fun_some _

theorem sum_isSome_of_append {total : Quantity} {first rest : List Member}
    (summed : (sum? total (first ++ rest)).isSome = true) : (sum? total first).isSome = true := by
  rw [sum_append] at summed
  cases known : sum? total first with
  | none => simp [known] at summed
  | some next => rfl

def reached (index : Value) (steps : List Step) : Split := (empty index).after steps

def acceptedOf (index : Value) (steps : List Step) : List Member := (empty index).accepted steps

/-- What is known after some steps. The total is the sum of the members that were taken in without a
    failure, which need not be all that the split holds. -/
structure IsReached (index : Value) (steps : List Step) : Prop where
  named : (reached index steps).index = index
  load : (reached index steps).load = .int (reached index steps).size
  members : (reached index steps).members.toList = offered steps
  total : sum? (.int 0) (acceptedOf index steps) = some (reached index steps).totalBytes
  finalized : (reached index steps).finalized = true ↔ .finalize ∈ steps

theorem reached_concat (index : Value) (steps : List Step) (step : Step) :
    reached index (steps ++ [step]) = (reached index steps).afterStep step :=
  after_concat _ _ _

theorem acceptedOf_concat (index : Value) (steps : List Step) (step : Step) :
    acceptedOf index (steps ++ [step]) =
      acceptedOf index steps ++ (reached index steps).acceptedBy step :=
  accepted_concat _ _ _

theorem IsReached.pass (known : IsReached index steps) (closed : .finalize ∈ steps) (step : Step) :
    IsReached index (steps ++ [step]) := by
  have finalized := known.finalized.mpr closed
  have same : reached index (steps ++ [step]) = reached index steps := by
    rw [reached_concat, afterStep_of_finalized finalized]
  have nothing := acceptedBy_of_finalized finalized step
  constructor
  · rw [same, known.named]
  · rw [same, known.load]
  · rw [same, known.members, offered_concat_of_closed closed]
  · rw [same, acceptedOf_concat, nothing, List.append_nil, known.total]
  · simp [same, finalized, closed]

theorem IsReached.finalize (known : IsReached index steps) (opened : .finalize ∉ steps) :
    IsReached index (steps ++ [.finalize]) := by
  have same : reached index (steps ++ [.finalize]) = (reached index steps).finalize :=
    reached_concat _ _ _
  constructor
  · rw [same]
    exact known.named
  · rw [same]
    exact known.load
  · rw [same, offered_concat_of_open opened, offered, List.append_nil]
    exact known.members
  · rw [same, acceptedOf_concat, acceptedBy, List.append_nil]
    exact known.total
  · simp [same, Split.finalize]

theorem IsReached.offer (known : IsReached index steps) (opened : .finalize ∉ steps)
    (member : Member) : IsReached index (steps ++ [.offer member]) := by
  have open_ : ¬(reached index steps).finalized = true := mt known.finalized.mp opened
  generalize taken : (reached index steps).add member = result
  have same : reached index (steps ++ [.offer member]) = result.1 := by
    rw [reached_concat, ← taken]
    rfl
  have members : ((reached index steps).counting member).members.toList =
      offered (steps ++ [.offer member]) := by
    rw [offered_concat_of_open opened, ← known.members]
    exact Array.toList_push
  have total := known.total
  have offers := taken ▸ add_offers known.load member
  cases offers with
  | closed finalized => exact absurd finalized open_
  | counted _ _ _ =>
    have nothing : (reached index steps).acceptedBy (.offer member) = [] := by
      simp [acceptedBy, taken]
    constructor
    · rw [same]
      exact known.named
    · simp [same, counting, size]
    · rw [same, members]
    · rw [same, acceptedOf_concat, nothing, List.append_nil]
      exact total
    · simp [same, counting, open_, opened]
  | @taken next _ summed =>
    have all : (reached index steps).acceptedBy (.offer member) = [member] := by
      simp [acceptedBy, taken]
    constructor
    · rw [same]
      exact known.named
    · simp [same, counting, size]
    · rw [same, ← members]
    · rw [same, acceptedOf_concat, all, sum_concat, total]
      exact summed
    · simp [same, counting, open_, opened]

theorem isReached (index : Value) (steps : List Step) : IsReached index steps := by
  induction steps using List.reverseRecOn with
  | nil => exact ⟨rfl, rfl, rfl, rfl, by simp [reached, after, empty]⟩
  | append_singleton steps step known =>
    by_cases closed : .finalize ∈ steps
    · exact known.pass closed step
    · cases step with
      | finalize => exact known.finalize closed
      | offer member => exact known.offer closed member

theorem sum_offered_offer (opened : .finalize ∉ steps)
    (all : acceptedOf index steps = offered steps) (member : Member) :
    sum? (.int 0) (offered (steps ++ [.offer member])) =
      (reached index steps).sumWith? member := by
  have total := (isReached index steps).total
  rw [all] at total
  rw [offered_concat_of_open opened, offered, offered, sum_concat, total]
  rfl

theorem accepted_of_sum (summed : (sum? (.int 0) (offered steps)).isSome = true) :
    acceptedOf index steps = offered steps := by
  induction steps using List.reverseRecOn with
  | nil => rfl
  | append_singleton steps step ih =>
    have known := isReached index steps
    rw [acceptedOf_concat]
    by_cases closed : .finalize ∈ steps
    · rw [offered_concat_of_closed closed] at summed ⊢
      rw [acceptedBy_of_finalized (known.finalized.mpr closed), List.append_nil, ih summed]
    · have shape := offered_concat_of_open closed step
      have before : acceptedOf index steps = offered steps :=
        ih (sum_isSome_of_append (shape ▸ summed))
      rw [before, shape]
      congr 1
      cases step with
      | finalize => rfl
      | offer member =>
        rw [sum_offered_offer closed before] at summed
        generalize taken : (reached index steps).add member = result
        have offers := taken ▸ add_offers known.load member
        cases offers with
        | closed finalized => exact absurd (known.finalized.mp finalized) closed
        | counted _ lost _ =>
          rw [lost] at summed
          cases summed
        | taken _ _ => simp [acceptedBy, taken, offered]

theorem reached_of_closed (closed : .finalize ∈ steps) :
    reached index (steps ++ [step]) = reached index steps := by
  rw [reached_concat, afterStep_of_finalized ((isReached index steps).finalized.mpr closed)]

/-- One more step after some others: it takes place in full, or it fails and changes nothing. -/
structure IsAtomic (index : Value) (steps : List Step) (step : Step) : Prop where
  load : (reached index (steps ++ [step])).load = .int (reached index (steps ++ [step])).size
  members : (reached index (steps ++ [step])).members.toList = acceptedOf index (steps ++ [step])
  total : sum? (.int 0) (reached index (steps ++ [step])).members.toList =
    some (reached index (steps ++ [step])).totalBytes
  refused : ∀ failure, ((reached index steps).take step).2 = .error failure →
    reached index (steps ++ [step]) = reached index steps
  frozen : .finalize ∈ steps → reached index (steps ++ [step]) = reached index steps

inductive Fails (index : Value) (steps : List Step) : Step → Failure → Prop
  | closed {member : Member} (closed : .finalize ∈ steps)
      (same : reached index (steps ++ [.offer member]) = reached index steps) :
      Fails index steps (.offer member) (.splitFinalized index)
  | counted {member : Member} {failure : Failure} (opened : .finalize ∉ steps)
      (lost : (reached index steps).sumWith? member = none)
      (cause : failure = if member.size? = none then .lacksOperation else .beyondRange)
      (counted : reached index (steps ++ [.offer member]) =
        (reached index steps).counting member) :
      Fails index steps (.offer member) failure

theorem fails_of_error {failure : Failure}
    (failed : ((reached index steps).take step).2 = .error failure) :
    Fails index steps step failure := by
  have known := isReached index steps
  cases step with
  | finalize => cases failed
  | offer member =>
    generalize taken : (reached index steps).add member = result
    have same : reached index (steps ++ [.offer member]) = result.1 := by
      rw [reached_concat, ← taken]
      rfl
    have offers := taken ▸ add_offers known.load member
    change ((reached index steps).add member).2 = _ at failed
    rw [taken] at failed
    cases offers with
    | closed finalized =>
      cases failed
      rw [known.named]
      exact .closed (known.finalized.mp finalized) same
    | counted opened lost cause =>
      cases failed
      exact .counted (by simp [← known.finalized, opened]) lost cause same
    | taken _ _ => cases failed

theorem isAtomic_iff : IsAtomic index steps step ↔
    (sum? (.int 0) (offered (steps ++ [step]))).isSome = true := by
  have known := isReached index (steps ++ [step])
  constructor
  · intro atomic
    rw [← known.members, atomic.total]
    rfl
  · intro summed
    have accepted : acceptedOf index (steps ++ [step]) = offered (steps ++ [step]) :=
      accepted_of_sum summed
    have total := known.total
    rw [accepted] at total
    constructor
    · exact known.load
    · rw [known.members, accepted]
    · rw [known.members, total]
    · intro failure failed
      cases fails_of_error failed with
      | closed _ same => exact same
      | @counted member _ opened lost =>
        have before : acceptedOf index steps = offered steps := by
          rw [offered_concat_of_open opened] at summed
          exact accepted_of_sum (sum_isSome_of_append summed)
        rw [sum_offered_offer opened before, lost] at summed
        cases summed
    · exact reached_of_closed

/-- What the steps on a fresh split come to, whatever is offered. -/
structure IsAccounted (index : Value) (steps : List Step) (step : Step) : Prop where
  load : (reached index (steps ++ [step])).load = .int (reached index (steps ++ [step])).size
  members : (reached index (steps ++ [step])).members.toList = offered (steps ++ [step])
  total : sum? (.int 0) (acceptedOf index (steps ++ [step])) =
    some (reached index (steps ++ [step])).totalBytes
  refused : ∀ failure, ((reached index steps).take step).2 = .error failure →
    Fails index steps step failure
  frozen : .finalize ∈ steps → reached index (steps ++ [step]) = reached index steps
  read : SplitReader.Accepts (reached index (steps ++ [step])) ↔ .finalize ∈ steps ++ [step] ∧
    ∀ member ∈ offered (steps ++ [step]), member.isForeign = false

theorem accepts_reached (index : Value) (steps : List Step) :
    SplitReader.Accepts (reached index steps) ↔
      .finalize ∈ steps ∧ ∀ member ∈ offered steps, member.isForeign = false := by
  have known := isReached index steps
  have load : SplitReader.loadFits (reached index steps) = true := by
    rw [SplitReader.loadFits, known.load]
    exact (Quantity.same_int _ _).trans (decide_eq_true rfl)
  rw [← known.finalized, ← known.members]
  exact ⟨fun accepted => ⟨accepted.finalized, accepted.own⟩,
    fun ⟨finalized, own⟩ => ⟨finalized, load, own⟩⟩

/-- Every step takes place in full or not at all exactly if all members that are offered before the
    split is finalized have sizes with a sum; then the total is the sum of them. -/
theorem steps_atomic_iff (index : Value) (steps : List Step) (step : Step) :
    IsAccounted index steps step ∧
      (IsAtomic index steps step ↔ (sum? (.int 0) (offered (steps ++ [step]))).isSome = true) ∧
      ∀ sizes : List Int, (offered (steps ++ [step])).map
          (fun member => member.size?.bind Quantity.toInt?) = sizes.map some →
        IsAtomic index steps step ∧
          (reached index (steps ++ [step])).totalBytes = .int sizes.sum := by
  have known := isReached index (steps ++ [step])
  refine ⟨?_, isAtomic_iff, ?_⟩
  · constructor
    · exact known.load
    · exact known.members
    · exact known.total
    · exact fun _ => fails_of_error
    · exact reached_of_closed
    · exact accepts_reached index (steps ++ [step])
  · intro sizes whole
    have summed := sum_whole whole 0
    rw [Int.zero_add] at summed
    have atomic : IsAtomic index steps step := isAtomic_iff.mpr (by rw [summed]; rfl)
    have total := atomic.total
    rw [known.members, summed] at total
    exact ⟨atomic, (Option.some.inj total).symm⟩

/-- A bare value is refused, and yet the split holds it. -/
theorem refused_but_held :
    ((reached (.int 0) []).take (.offer (.foreign (.str "x")))).2 = .error .lacksOperation ∧
      ¬IsAtomic (.int 0) [] (.offer (.foreign (.str "x"))) := by
  refine ⟨rfl, fun atomic => ?_⟩
  have same := atomic.refused .lacksOperation rfl
  exact absurd (congrArg size same) (by decide)

end HarvestPlan.Split
