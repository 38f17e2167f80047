import HarvestPlan.Proofs.Storage.Below
import HarvestPlan.Proofs.Storage.Beside

open HarvestPlan.Path (Route IsName)

namespace HarvestPlan

namespace Node

def IsLight (touch : Node → Node) : Prop :=
  ∀ node, touch node =
    { node with lstatFault := (touch node).lstatFault, listFault := (touch node).listFault }

namespace IsLight

variable {touch : Node → Node}

theorem path (light : IsLight touch) (node : Node) : (touch node).path = node.path := by
  rw [light node]

theorem statFault (light : IsLight touch) (node : Node) :
    (touch node).statFault = node.statFault := by
  rw [light node]

theorem leads (light : IsLight touch) (node : Node) : node.LeadsAs (touch node) := by
  rw [light node]
  exact ⟨rfl, rfl, rfl⟩

end IsLight

def onlyAt (path : String) (change : Node → Node) (node : Node) : Node :=
  if node.path = path then change node else node

theorem onlyAt_isLight {change : Node → Node} (light : IsLight change) (path : String) :
    IsLight (onlyAt path change) := by
  intro node
  unfold onlyAt
  split
  · exact light node
  · rfl

def unlistable (fault : NodeFault) (node : Node) : Node := { node with listFault := some fault }

def hidden (fault : NodeFault) (node : Node) : Node := { node with lstatFault := some fault }

end Node

namespace Filesystem

def mapNodes (fs : Filesystem) (touch : Node → Node) : Filesystem :=
  { fs with nodes := fs.nodes.map touch }

variable {fs : Filesystem} {touch : Node → Node}

theorem beside_mapNodes (light : Node.IsLight touch) :
    IsBeside (fun node other => other = touch node) fs (fs.mapNodes touch) where
  directory := rfl
  found path := by
    have same : (fs.mapNodes touch).find? path = (fs.find? path).map touch := by
      simp only [find?, mapNodes, List.find?_map, Function.comp_def, light.path]
    rw [same]
    cases fs.find? path with
    | none => exact .none
    | some node => exact .some rfl
  leads := by
    rintro node further rfl
    exact light.leads node

theorem lookup_mapNodes (light : Node.IsLight touch) (path : String) :
    (fs.mapNodes touch).lookup path = touch <$> fs.lookup path :=
  ((beside_mapNodes light).lookup path).map_eq

theorem statusOf_mapNodes (light : Node.IsLight touch) (path : String) (node : Node) :
    (fs.mapNodes touch).statusOf path (touch node) = fs.statusOf path node := by
  unfold statusOf
  rw [(light.leads node).bits, (light.leads node).isDirectory, light node]
  rfl

theorem stat_mapNodes (light : Node.IsLight touch) (path : String) :
    (fs.mapNodes touch).stat path = fs.stat path := by
  unfold stat
  rw [lookup_mapNodes light]
  cases fs.lookup path with
  | error cause => rfl
  | ok node =>
    change (raise (touch node).statFault path >>= fun _ =>
      (fs.mapNodes touch).statusOf path (touch node)) = _
    rw [light.statFault, statusOf_mapNodes light]
    rfl

theorem openLocal_mapNodes (light : Node.IsLight touch) (uri : Json.Value) :
    Connection.openLocal (fs.mapNodes touch) uri =
      (fun _ => (fs.mapNodes touch).backend) <$> Connection.openLocal fs uri :=
  (beside_mapNodes light).openLocal uri

theorem childrenOf_mapNodes (light : Node.IsLight touch) (node : Node) :
    (fs.mapNodes touch).childrenOf (touch node) = (fs.childrenOf node).map touch := by
  simp only [childrenOf, mapNodes, List.filter_map, Function.comp_def, light.path]

theorem IsProper.mapNodes (proper : fs.IsProper) (light : Node.IsLight touch) :
    (fs.mapNodes touch).IsProper := by
  have paths : (fs.nodes.map touch).map (·.path) = fs.nodes.map (·.path) := by
    simp only [List.map_map, Function.comp_def, light.path]
  constructor
  · change ((fs.nodes.map touch).map (·.path)).Nodup
    rw [paths]
    exact proper.unique
  · intro other present
    obtain ⟨node, held, rfl⟩ := List.mem_map.mp present
    rw [light.path]
    exact proper.normal node held
  · intro other present leads
    obtain ⟨node, held, rfl⟩ := List.mem_map.mp present
    rw [(light.leads node).target] at leads
    rw [(light.leads node).bits]
    exact proper.links node held leads
  · exact proper.rooted

theorem Stands.mapNodes (light : Node.IsLight touch) {route own : Route} {node : Node}
    (stands : fs.Stands route own node) : (fs.mapNodes touch).Stands route own (touch node) := by
  refine ⟨List.mem_map_of_mem stands.present, stands.single, ?_, fun plain => ?_⟩
  · rw [light.path]
    exact stands.path
  · rw [(light.leads node).target] at plain
    rw [lookup_mapNodes light, stands.found plain]
    rfl

theorem listChildren_mapNodes (light : Node.IsLight touch) (path : String) {children : List Node}
    (seen : ∀ child ∈ children, (touch child).lstatFault = child.lstatFault) :
    (fs.mapNodes touch).listChildren path (children.map touch) = fs.listChildren path children := by
  induction children with
  | nil => rfl
  | cons child rest ih =>
    have later := ih fun other present => seen other (List.mem_cons_of_mem _ present)
    simp only [List.map_cons, listChildren, light.path, seen child List.mem_cons_self, later,
      statusOf_mapNodes light]

end Filesystem
end HarvestPlan
