import HarvestPlan.Proofs.Lists
import HarvestPlan.Proofs.Storage.Beside
import HarvestPlan.Proofs.Storage.Causes

namespace HarvestPlan

/-- The same fault; or, for one that ends every walk, none or an error of the system. -/
inductive NodeFault.EasedTo : Option NodeFault → Option NodeFault → Prop
  | same (fault : Option NodeFault) : EasedTo fault fault
  | gone (reason : String) : EasedTo (some (.fatal reason)) none
  | system (reason : String) (number : Json.Value) (text : String) :
    EasedTo (some (.fatal reason)) (some (.system number text))

structure Node.EasedTo (node other : Node) : Prop where
  same : other = { node with
    statFault := other.statFault, lstatFault := other.lstatFault, listFault := other.listFault }
  stat : NodeFault.EasedTo node.statFault other.statFault
  lstat : NodeFault.EasedTo node.lstatFault other.lstatFault
  list : NodeFault.EasedTo node.listFault other.listFault

structure Filesystem.EasedTo (fs other : Filesystem) : Prop where
  same : other = { fs with nodes := other.nodes }
  nodes : fs.nodes.Forall₂ Node.EasedTo other.nodes

def Outcome.SameUnlessLost {α : Type} (first second : Except Failure α) : Prop :=
  second = first ∨ ∃ context, first = .error (.lost context)

def Listing.SameUnlessLost (first second : Listing) : Prop :=
  second = first ∨ ∃ context, first.children = .error (.lost context)

structure Backend.SameUnlessLost (first second : Backend) : Prop where
  normalizeRoot : ∀ root, second.normalizeRoot root = first.normalizeRoot root
  stat : ∀ path, Outcome.SameUnlessLost (first.stat path) (second.stat path)
  list : ∀ path, (first.list path).SameUnlessLost (second.list path)

namespace Outcome.SameUnlessLost

variable {α β : Type}

theorem refl (first : Except Failure α) : SameUnlessLost first first := .inl rfl

theorem lost (context : Lost) (second : Except Failure α) :
    SameUnlessLost (.error (.lost context)) second := .inr ⟨context, rfl⟩

theorem bind {first second : Except Failure α} {next following : α → Except Failure β}
    (start : SameUnlessLost first second) (go : ∀ a, SameUnlessLost (next a) (following a)) :
    SameUnlessLost (first >>= next) (second >>= following) := by
  rcases start with rfl | ⟨context, rfl⟩
  · cases second with
    | error cause => exact .refl _
    | ok a => exact go a
  · exact .lost context _

end Outcome.SameUnlessLost

open Outcome (SameUnlessLost)

theorem Node.EasedTo.leads {node other : Node} (eased : node.EasedTo other) :
    node.LeadsAs other := by
  rw [eased.same]
  exact ⟨rfl, rfl, rfl⟩

namespace Filesystem

variable {fs other : Filesystem}

theorem raise_eased {fault further : Option NodeFault} (eased : NodeFault.EasedTo fault further)
    (path : String) : SameUnlessLost (raise fault path) (raise further path) := by
  cases eased with
  | same => exact .refl _
  | gone reason => exact .lost _ _
  | system reason number text => exact .lost _ _

namespace EasedTo

theorem beside (eased : fs.EasedTo other) : IsBeside Node.EasedTo fs other where
  directory := by rw [eased.same]
  found path := Lists.find?_beside eased.nodes fun node further easedNode => by
    rw [easedNode.leads.path]
  leads := Node.EasedTo.leads

theorem statusOf (eased : fs.EasedTo other) {node further : Node} (easedNode : node.EasedTo further)
    (path : String) : other.statusOf path further = fs.statusOf path node := by
  unfold Filesystem.statusOf
  rw [easedNode.leads.bits, easedNode.leads.isDirectory, easedNode.same, eased.same]
  rfl

theorem stat (eased : fs.EasedTo other) (path : String) :
    SameUnlessLost (fs.stat path) (other.stat path) := by
  have found := eased.beside.lookup path
  unfold Filesystem.stat
  generalize fs.lookup path = here at found ⊢
  generalize other.lookup path = there at found ⊢
  cases found with
  | error cause => exact .refl _
  | ok easedNode =>
    refine (raise_eased easedNode.stat path).bind fun _ => ?_
    rw [eased.statusOf easedNode]
    exact .refl _

theorem childrenOf (eased : fs.EasedTo other) {node further : Node}
    (easedNode : node.EasedTo further) :
    (fs.childrenOf node).Forall₂ Node.EasedTo (other.childrenOf further) := by
  refine List.rel_filter (fun child otherChild easedChild => ?_) eased.nodes
  simp only [easedChild.leads.path, easedNode.leads.path]

theorem listChildren (eased : fs.EasedTo other) (path : String) {children others : List Node}
    (easedAll : children.Forall₂ Node.EasedTo others) :
    (fs.listChildren path children).SameUnlessLost (other.listChildren path others) := by
  induction easedAll with
  | nil => exact .inl rfl
  | @cons child otherChild rest others easedChild _ ih =>
    have looked : SameUnlessLost
        (do
          raise child.lstatFault (childPath path (Path.name child.path))
          fs.statusOf (childPath path (Path.name child.path)) child)
        (do
          raise otherChild.lstatFault (childPath path (Path.name child.path))
          other.statusOf (childPath path (Path.name child.path)) otherChild) := by
      refine (raise_eased easedChild.lstat _).bind fun _ => ?_
      rw [eased.statusOf easedChild]
      exact .refl _
    unfold Filesystem.listChildren
    simp only [easedChild.leads.path]
    generalize (do
      raise child.lstatFault (childPath path (Path.name child.path))
      fs.statusOf (childPath path (Path.name child.path)) child) = here at looked ⊢
    generalize (do
      raise otherChild.lstatFault (childPath path (Path.name child.path))
      other.statusOf (childPath path (Path.name child.path)) otherChild) = there at looked ⊢
    rcases looked with rfl | ⟨context, rfl⟩
    · cases there with
      | ok status =>
        rcases ih with same | ⟨context, lost⟩
        · exact .inl (by rw [same])
        · exact .inr ⟨context, by rw [lost]; rfl⟩
      | error cause =>
        cases cause with
        | system error =>
          rcases ih with same | ⟨context, lost⟩
          · exact .inl (by rw [same])
          · exact .inr ⟨context, lost⟩
        | _ => exact .inl rfl
    · exact .inr ⟨context, rfl⟩

theorem list (eased : fs.EasedTo other) (path : String) :
    (fs.list path).SameUnlessLost (other.list path) := by
  have found := eased.beside.lookup path
  unfold Filesystem.list openDirectory
  generalize fs.lookup path = here at found ⊢
  generalize other.lookup path = there at found ⊢
  cases found with
  | error cause => exact .inl rfl
  | @ok node further easedNode =>
    rcases raise_eased easedNode.list path with same | ⟨context, lost⟩
    · simp only [bind, Except.bind, same, easedNode.leads.isDirectory]
      cases raise node.listFault path with
      | error cause => exact .inl rfl
      | ok _ =>
        cases node.isDirectory with
        | error cause => exact .inl rfl
        | ok directory =>
          cases directory with
          | false => exact .inl rfl
          | true =>
            rcases eased.listChildren path (eased.childrenOf easedNode) with same | ⟨context, lost⟩
            · refine .inl ?_
              simp only [if_true, pure, Except.pure, same]
            · refine .inr ⟨context, ?_⟩
              simp only [if_true, pure, Except.pure, lost]
              rfl
    · refine .inr ⟨context, ?_⟩
      simp only [bind, Except.bind, lost]

theorem backend (eased : fs.EasedTo other) : fs.backend.SameUnlessLost other.backend where
  normalizeRoot root := by
    change Except.ok (other.normalizeRoot root) = .ok (fs.normalizeRoot root)
    rw [Filesystem.normalizeRoot, eased.beside.directory]
    rfl
  stat path := by
    change SameUnlessLost (fs.stat _) (other.stat (Path.absolute other.directory path))
    rw [eased.beside.directory]
    exact eased.stat _
  list path := by
    change (fs.list _).SameUnlessLost (other.list (Path.absolute other.directory path))
    rw [eased.beside.directory]
    exact eased.list _

theorem walkLimit (eased : fs.EasedTo other) : other.walkLimit = fs.walkLimit := by
  rw [Filesystem.walkLimit, Filesystem.walkLimit, eased.nodes.length_eq]

end EasedTo

theorem raise_lost {fault : Option NodeFault} {path : String} {context : Lost}
    (lost : raise fault path = .error (.lost context)) :
    ∃ reason, fault = some (.fatal reason) ∧ context = ⟨reason, none, none⟩ := by
  rcases fault with _ | (_ | reason | _)
  · cases lost
  · cases lost
  · cases lost
    exact ⟨reason, rfl, rfl⟩
  · cases lost

theorem stat_lost {path : String} {context : Lost} (lost : fs.stat path = .error (.lost context)) :
    ∃ node reason, fs.lookup path = .ok node ∧ node.statFault = some (.fatal reason) ∧
      context = ⟨reason, none, none⟩ := by
  rcases Outcome.bind_error lost with lost | ⟨node, found, lost⟩
  · exact nomatch lookup_fails fs path _ lost
  rcases Outcome.bind_error lost with lost | ⟨_, -, lost⟩
  · obtain ⟨reason, fault, named⟩ := raise_lost lost
    exact ⟨node, reason, found, fault, named⟩
  · exact nomatch statusOf_fails fs path node _ lost

theorem listChildren_lost {path : String} {children : List Node} {context : Lost}
    (lost : (fs.listChildren path children).children = .error (.lost context)) :
    ∃ child ∈ children, ∃ reason, child.lstatFault = some (.fatal reason) ∧
      context = ⟨reason, none, none⟩ := by
  induction children with
  | nil => cases lost
  | cons child rest ih =>
    have later (lostRest : (fs.listChildren path rest).children = .error (.lost context)) :
        ∃ found ∈ child :: rest, ∃ reason, found.lstatFault = some (.fatal reason) ∧
          context = ⟨reason, none, none⟩ := by
      obtain ⟨found, present, fault⟩ := ih lostRest
      exact ⟨found, List.mem_cons_of_mem _ present, fault⟩
    unfold Filesystem.listChildren at lost
    simp only at lost
    split at lost
    · exact later (Outcome.map_error lost)
    · exact later lost
    · rename_i failure _ looked
      cases lost
      rcases Outcome.bind_error looked with looked | ⟨_, -, looked⟩
      · exact ⟨child, by simp, raise_lost looked⟩
      · exact nomatch statusOf_fails fs _ child _ looked

theorem list_lost {path : String} {context : Lost}
    (lost : (fs.list path).children = .error (.lost context)) :
    ∃ node reason, fs.lookup path = .ok node ∧ context = ⟨reason, none, none⟩ ∧
      (node.listFault = some (.fatal reason) ∨
        ∃ child ∈ fs.childrenOf node, child.lstatFault = some (.fatal reason)) := by
  unfold Filesystem.list at lost
  split at lost
  · rename_i failure opened
    cases lost
    rcases Outcome.bind_error opened with opened | ⟨node, found, opened⟩
    · exact nomatch lookup_fails fs path _ opened
    rcases Outcome.bind_error opened with opened | ⟨_, -, opened⟩
    · obtain ⟨reason, fault, named⟩ := raise_lost opened
      exact ⟨node, reason, found, named, .inl fault⟩
    rcases Outcome.bind_error opened with opened | ⟨directory, -, opened⟩
    · exact nomatch isDirectory_fails node _ opened
    · cases directory <;> cases opened
  · rename_i node opened
    obtain ⟨found, looked, opened⟩ := Outcome.bind_ok opened
    obtain ⟨_, -, opened⟩ := Outcome.bind_ok opened
    obtain ⟨directory, -, opened⟩ := Outcome.bind_ok opened
    cases directory with
    | false => cases opened
    | true =>
      cases opened
      obtain ⟨child, present, reason, fault, named⟩ := listChildren_lost (Outcome.map_error lost)
      exact ⟨node, reason, looked, named, .inr ⟨child, present, fault⟩⟩

end Filesystem
end HarvestPlan
