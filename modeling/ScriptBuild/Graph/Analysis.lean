import ScriptBuild.Graph.Basic
import ScriptBuild.Project.Plan

/-! The graph of a build plan: its units in link order, the imports between them, and their packages. -/

namespace ScriptBuild

/-- The node that each node leads to. A node that is missing, or that leads to the empty text, is a root. -/
structure Forest where
  parents : Dictionary Text := []

namespace Forest

def parent (f : Forest) (x : Text) : Text :=
  let p := (f.parents.find? x).getD []
  if p.isEmpty then x else p

/-- The root that a node leads to in at most so many steps, after which all nodes on the way lead to it at once. -/
def find (f : Forest) : Nat → Text → Text × Forest
  | 0, x => (x, f)
  | fuel + 1, x =>
    if f.parent x == x then (x, f)
    else
      let (root, f) := f.find fuel (f.parent x)
      (root, ⟨f.parents.insert x root⟩)

def root (f : Forest) (x : Text) : Text × Forest := f.find f.parents.length x

def unite (f : Forest) (a b : Text) : Forest :=
  let (ra, f) := f.root a
  let (rb, f) := f.root b
  if ra == rb then f else ⟨f.parents.insert ra rb⟩

/-- The distinct roots of some nodes, besides those known. -/
def roots (f : Forest) (known : List Text) : List Text → List Text
  | [] => known
  | x :: xs =>
    let (r, f) := f.root x
    f.roots (if known.contains r then known else r :: known) xs

end Forest

namespace UnitGraph

def forest (g : UnitGraph) : Forest := g.imports.foldl (fun f e => f.unite e.source e.target) {}

def componentCount (g : UnitGraph) : Nat := (g.forest.roots [] (g.units.map (·.id))).length

def fanOut (g : UnitGraph) (id : Text) : Nat := (g.importsOf id).length

def fanIn (g : UnitGraph) (id : Text) : Nat := (g.importersOf id).length

def largest (measure : Text → Nat) (nodes : List GraphNode) : Nat × Text :=
  nodes.foldl (fun best n => if measure n.id > best.1 then (measure n.id, n.id) else best) (0, [])

def packageFanOut (g : UnitGraph) : Dictionary Nat :=
  (g.edges.filter fun e => e.kind == .dependsOn).foldl
    (fun counts e =>
      let package := Text.dropPrefix "pkg:" e.source
      counts.insert package ((counts.find? package).getD 0 + 1)) []

def stats (g : UnitGraph) : GraphStats :=
  { nodeCount := g.nodes.length
    edgeCount := g.edges.length
    packageCount := g.nodes.countP fun n => n.kind == .package
    unitCount := g.units.length
    libraryCount := g.nodes.countP fun n => n.kind == .library
    resourceCount := g.nodes.countP fun n => n.kind == .resource
    emittedCount := g.nodes.countP (·.isEmitted)
    maxFanOut := (largest g.fanOut g.nodes).1
    maxFanIn := (largest g.fanIn g.nodes).1
    hotspot := (largest g.fanOut g.nodes).2
    components := g.componentCount
    cycles := g.cycles
    packageFanOut := g.packageFanOut }

end UnitGraph

namespace CompilationUnit

/-- Resources, and units without a name, go by their path. -/
def isNameless (u : CompilationUnit) : Bool := u.spec.kind == .resource || u.spec.name.isEmpty

def nodeId (u : CompilationUnit) : Text := if u.isNameless then "res:" ++ u.path else "unit:" ++ u.spec.name

/-- What stands before the last `mark`, if that is anything. -/
def beforeLast (mark : Text) (s : Text) : Text :=
  match Text.cutLast? mark s with
  | some (b :: front, _) => b :: front
  | _ => "(default)"

def afterLast (mark : Text) (s : Text) : Text := ((Text.cutLast? mark s).map (·.2)).getD s

/-- The package of a unit. Resources are grouped by directory. -/
def packageName (u : CompilationUnit) : Text :=
  if u.isNameless then beforeLast "/" u.path else beforeLast "." u.spec.name

def nodeName (u : CompilationUnit) : Text :=
  if u.isNameless then afterLast "/" u.path else afterLast "." u.spec.name

def nodeKind (u : CompilationUnit) : NodeKind :=
  if u.spec.kind == .resource then .resource
  else if u.spec.isLibrary then .library
  else if u.spec.kind == .markup then .markup
  else .source

end CompilationUnit

namespace UnitGraph

def hasNode (g : UnitGraph) (id : Text) : Bool := g.nodes.any fun n => n.id == id

def addUnit (g : UnitGraph) (u : CompilationUnit) (isEmitted : Bool) : UnitGraph :=
  let package := u.packageName
  let packageId := "pkg:" ++ package
  let g := if g.hasNode packageId then g
    else { g with nodes := g.nodes ++ [{ id := packageId, name := package, kind := .package, package }] }
  if g.hasNode u.nodeId then g
  else
    { g with
      nodes := g.nodes ++ [{
        id := u.nodeId, name := u.nodeName, kind := u.nodeKind, package, path := u.path, isEmitted }]
      edges := g.edges ++ [{ source := packageId, target := u.nodeId, kind := .contains }] }

def addImports (g : UnitGraph) (id : Text) (targets : List Text) : UnitGraph :=
  { g with edges := g.edges ++
      ((targets.filter g.hasNode).map fun target => { source := id, target, kind := .imports }) }

def packageOf (g : UnitGraph) (id : Text) : Text :=
  ((g.nodes.reverse.find? fun n => n.id == id).map (·.package)).getD []

def packageDependencies (g : UnitGraph) : List (Text × Text) :=
  let pairs := (g.imports.map fun e => (g.packageOf e.source, g.packageOf e.target)).filter fun (a, b) => a != b
  let pairs := pairs.foldl (fun (ps : List (Text × Text)) p => if ps.contains p then ps else ps ++ [p]) []
  pairs.mergeSort fun a b => if a.1 == b.1 then Text.ble a.2 b.2 else Text.ble a.1 b.1

def addPackageDependencies (g : UnitGraph) : UnitGraph :=
  { g with edges := g.edges ++
      g.packageDependencies.map fun (a, b) => { source := "pkg:" ++ a, target := "pkg:" ++ b, kind := .dependsOn } }

end UnitGraph

namespace Workspace

def nodeId (w : Workspace) (id : UnitId) : Text := ((w.unit? id).map (·.nodeId)).getD []

def addImports (d : Disk) (s : UnitGraph × Workspace) (id : UnitId) : UnitGraph × Workspace :=
  let (dependencies, w) := s.2.dependencies d false id
  (s.1.addImports (w.nodeId id) ((dependencies.getD []).map w.nodeId), w)

def analyze (w : Workspace) (d : Disk) (plan : BuildPlan) : UnitGraph × Workspace :=
  let g := plan.reachable.foldl
    (fun g id =>
      match w.unit? id with
      | none => g
      | some u => g.addUnit u (plan.emitted.contains id)) { root := w.nodeId plan.root : UnitGraph }
  let (g, w) := plan.reachable.foldl (addImports d) (g, w)
  (g.addPackageDependencies, w)

end Workspace

end ScriptBuild
