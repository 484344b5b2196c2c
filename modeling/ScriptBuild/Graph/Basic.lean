import ScriptBuild.Dictionary

/-! Graphs of units and packages, their import cycles, and who depends on a unit. -/

namespace ScriptBuild

inductive NodeKind where
  | package
  | source
  | markup
  | library
  | resource
  | other (label : Text)
  deriving DecidableEq

def NodeKind.label : NodeKind → Text
  | .package => "package"
  | .source => "source"
  | .markup => "markup"
  | .library => "library"
  | .resource => "resource"
  | .other label => label

def NodeKind.ofLabel (label : Text) : NodeKind :=
  ([.package, .source, .markup, .library, .resource].find? fun k => NodeKind.label k == label).getD
    (.other label)

inductive EdgeKind where
  | contains
  | imports
  | dependsOn
  | other (label : Text)
  deriving DecidableEq

def EdgeKind.label : EdgeKind → Text
  | .contains => "contains"
  | .imports => "imports"
  | .dependsOn => "depends_on"
  | .other label => label

def EdgeKind.ofLabel (label : Text) : EdgeKind :=
  ([.contains, .imports, .dependsOn].find? fun k => EdgeKind.label k == label).getD (.other label)

structure GraphNode where
  id : Text
  name : Text
  kind : NodeKind
  package : Text
  path : Text := []
  isEmitted : Bool := false
  metadata : Dictionary Text := []

structure GraphEdge where
  source : Text
  target : Text
  kind : EdgeKind
  label : Text := []

structure GraphStats where
  nodeCount : Nat := 0
  edgeCount : Nat := 0
  packageCount : Nat := 0
  unitCount : Nat := 0
  libraryCount : Nat := 0
  resourceCount : Nat := 0
  emittedCount : Nat := 0
  maxFanOut : Nat := 0
  maxFanIn : Nat := 0
  hotspot : Text := []
  components : Nat := 0
  cycles : List (List Text) := []
  packageFanOut : Dictionary Nat := []

structure UnitGraph where
  root : Text := []
  nodes : List GraphNode := []
  edges : List GraphEdge := []

namespace UnitGraph

def imports (g : UnitGraph) : List GraphEdge := g.edges.filter fun e => e.kind == .imports

def units (g : UnitGraph) : List GraphNode := g.nodes.filter fun n => n.kind != .package

def importsOf (g : UnitGraph) (id : Text) : List Text :=
  (g.imports.filter fun e => e.source == id).map (·.target)

def importersOf (g : UnitGraph) (id : Text) : List Text :=
  (g.imports.filter fun e => e.target == id).map (·.source)

end UnitGraph

structure CycleSearch where
  done : List Text := []
  /-- The nodes from the one being visited back to the one the search began at. -/
  path : List Text := []
  /-- The last one found first. -/
  found : List (List Text) := []

namespace CycleSearch

def cycleFrom (s : CycleSearch) (node : Text) : List Text :=
  ((s.path.takeWhile fun x => x != node) ++ [node]).reverse

mutual

/-- Visits a node. `fuel` bounds the length of the path. -/
def visit (next : Text → List Text) : Nat → CycleSearch → Text → CycleSearch
  | fuel, s, node =>
    if s.done.contains node then s
    else if s.path.contains node then { s with found := s.cycleFrom node :: s.found }
    else
      match fuel with
      | 0 => s
      | fuel + 1 =>
        let s := visitAll next fuel { s with path := node :: s.path } (next node)
        { s with path := s.path.tail, done := node :: s.done }
  termination_by fuel _ _ => (fuel, 0)

def visitAll (next : Text → List Text) : Nat → CycleSearch → List Text → CycleSearch
  | _, s, [] => s
  | fuel, s, node :: nodes => visitAll next fuel (visit next fuel s node) nodes
  termination_by fuel _ nodes => (fuel, nodes.length + 1)

end

end CycleSearch

/-- The import cycles, in the order in which the search meets them. A node is searched once, so not
every cycle is found, but one is if there is any. -/
def UnitGraph.cycles (g : UnitGraph) : List (List Text) :=
  (CycleSearch.visitAll g.importsOf (g.units.length + g.imports.length + 1) {} (g.units.map (·.id))).found.reverse

namespace UnitGraph

/-- Units found in breadth first order from a queue backwards along imports; `seen` holds all that were
queued. At most `fuel` units are taken from the queue. -/
def searchImporters (g : UnitGraph) : Nat → List Text → List Text → List Text
  | 0, seen, _ => seen
  | _ + 1, seen, [] => seen
  | fuel + 1, seen, id :: queue =>
    let new := (g.importersOf id).foldl
      (fun (xs : List Text) x => if seen.contains x || xs.contains x then xs else xs ++ [x]) []
    g.searchImporters fuel (seen ++ new) (queue ++ new)

/-- All other nodes from which a node is reached by imports, sorted. -/
def dependents (g : UnitGraph) (id : Text) : List Text :=
  Text.sort ((g.searchImporters (g.edges.length + 1) [id] [id]).drop 1)

end UnitGraph

structure GraphRepository where
  graphs : Dictionary UnitGraph := []

inductive GraphError where
  | notFound (project : Text)
  | canceled

def GraphError.message : GraphError → Text
  | .notFound project => "graph not found: " ++ project
  | .canceled => "context canceled"

namespace GraphRepository

def store (r : GraphRepository) (canceled : Bool) (project : Text) (g : UnitGraph) :
    Except GraphError GraphRepository :=
  if canceled then .error .canceled else .ok ⟨r.graphs.insert project g⟩

def load (r : GraphRepository) (canceled : Bool) (project : Text) : Except GraphError UnitGraph :=
  if canceled then .error .canceled
  else
    match r.graphs.find? project with
    | some g => .ok g
    | none => .error (.notFound project)

def dependents (r : GraphRepository) (canceled : Bool) (project id : Text) : Except GraphError (List Text) :=
  (r.load canceled project).map fun g => g.dependents id

end GraphRepository

end ScriptBuild
