import HarvestPlan.Storage.Opened
import HarvestPlan.Proofs.Beside

namespace HarvestPlan

open Outcome (Beside)

structure Node.LeadsAs (node other : Node) : Prop where
  path : other.path = node.path
  mode : other.mode = node.mode
  target : other.target = node.target

theorem Node.LeadsAs.bits {node other : Node} (leads : node.LeadsAs other) :
    other.bits = node.bits := by
  rw [Node.bits, leads.mode]
  rfl

theorem Node.LeadsAs.isDirectory {node other : Node} (leads : node.LeadsAs other) :
    other.isDirectory = node.isDirectory := by
  rw [Node.isDirectory, leads.bits]
  rfl

namespace Filesystem

structure IsBeside (R : Node → Node → Prop) (fs other : Filesystem) : Prop where
  directory : other.directory = fs.directory
  found : ∀ path, Option.Rel R (fs.find? path) (other.find? path)
  leads : ∀ {node further : Node}, R node further → node.LeadsAs further

variable {R : Node → Node → Prop} {fs other : Filesystem}

namespace IsBeside

theorem enter (beside : IsBeside R fs other) {follow further : String → Except LookupFault Node}
    (same : ∀ target, Beside R (follow target) (further target)) {node otherNode : Node}
    (related : R node otherNode) (name : String) :
    Beside R (fs.enter follow node name) (other.enter further otherNode name) := by
  have leads := beside.leads related
  have found := beside.found (childPath node.path name)
  unfold Filesystem.enter
  rw [leads.isDirectory, leads.path]
  cases node.isDirectory with
  | error cause => exact .error _
  | ok directory =>
    cases directory with
    | false => exact .error _
    | true =>
      generalize fs.find? (childPath node.path name) = here at found ⊢
      generalize other.find? (childPath node.path name) = there at found ⊢
      cases found with
      | none => exact .error _
      | @some child otherChild relatedChild =>
        simp only [Outcome.ok_mapError, (beside.leads relatedChild).target]
        cases child.target with
        | none => exact .ok relatedChild
        | some target => exact same target

theorem walkParts (beside : IsBeside R fs other)
    {follow further : String → Except LookupFault Node}
    (same : ∀ target, Beside R (follow target) (further target)) (path : String) :
    Beside R (fs.walkParts follow path) (other.walkParts further path) := by
  have parts : other.parts path = fs.parts path := by rw [Filesystem.parts, beside.directory]; rfl
  have top := beside.found "/"
  unfold Filesystem.walkParts
  rw [parts]
  generalize fs.find? "/" = here at top ⊢
  generalize other.find? "/" = there at top ⊢
  cases top with
  | none => exact .error _
  | some related =>
    exact .foldlM (fun _ _ name related => beside.enter same related name) _ related

theorem lookupWithin (beside : IsBeside R fs other) (nesting : Nat) (path : String) :
    Beside R (fs.lookupWithin nesting path) (other.lookupWithin nesting path) := by
  induction nesting generalizing path with
  | zero => exact beside.walkParts (fun _ => .error _) path
  | succ nesting ih => exact beside.walkParts ih path

theorem lookup (beside : IsBeside R fs other) (path : String) :
    Beside R (fs.lookup path) (other.lookup path) :=
  (beside.lookupWithin deepestLinks path).mapError _

theorem isDirectory (beside : IsBeside R fs other) (path : String) :
    other.isDirectory path = fs.isDirectory path := by
  have found := beside.lookup path
  unfold Filesystem.isDirectory
  generalize fs.lookup path = here at found ⊢
  generalize other.lookup path = there at found ⊢
  cases found with
  | ok related => exact (beside.leads related).isDirectory
  | error cause => rfl

theorem openLocal (beside : IsBeside R fs other) (uri : Json.Value) :
    Connection.openLocal other uri = (fun _ => other.backend) <$> Connection.openLocal fs uri := by
  unfold Connection.openLocal
  cases Connection.parseUri uri with
  | error cause => rfl
  | ok parsed =>
    simp only [bind, Except.bind, beside.isDirectory]
    split
    · rfl
    · cases fs.isDirectory (if parsed.path.isEmpty then "/" else parsed.path) with
      | error cause => rfl
      | ok directory => cases directory <;> rfl

end IsBeside
end Filesystem
end HarvestPlan
