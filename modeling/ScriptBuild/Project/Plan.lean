import ScriptBuild.Project.LinkOrder
import ScriptBuild.Workspace.Syntax

/-! The dependencies of units, and the plan of a build. -/

namespace ScriptBuild

namespace Workspace

def firstUnit (w : Workspace) (d : Disk) (p : ProjectId) : List Text → Option UnitId × Workspace
  | [] => (none, w)
  | path :: paths =>
    match d.stat path with
    | .error _ => w.firstUnit d p paths
    | .ok _ =>
      match w.request p (d.absolute path) with
      | (some id, w) => (some id, w)
      | (none, w) => w.firstUnit d p paths

def resolve (w : Workspace) (d : Disk) (p : ProjectId) (qname : Text) : Option UnitId × Workspace :=
  w.firstUnit d p (((w.project? p).map fun c => c.candidates qname).getD [])

/-- The unit with a path relative to one of the roots. -/
def resolveResource (w : Workspace) (d : Disk) (p : ProjectId) (relative : Text) : Option UnitId × Workspace :=
  w.firstUnit d p (((w.project? p).map fun c => c.resourceCandidates relative).getD [])

structure Resolution where
  workspace : Workspace
  dependencies : List UnitId := []
  diagnostics : List Diagnostic := []

namespace Resolution

def add (r : Resolution) (self d : UnitId) : Resolution :=
  if d == self || r.dependencies.contains d then r
  else { r with dependencies := r.dependencies ++ [d] }

def warn (r : Resolution) (path : Text) (line : Nat) (message : Text) : Resolution :=
  { r with diagnostics := r.diagnostics ++ [.warning .unresolved path line message] }

end Resolution

/-- Whether a name that was not found is worth a warning; other names are taken for built-in ones. -/
def needsWarning (r : Reference) : Bool :=
  r.kind == .imported || r.name.contains '.' || r.name.contains ':'

def resolveReference (d : Disk) (self : UnitId) (u : CompilationUnit) (f : SourceFile) (r : Resolution)
    (ref : Reference) : Resolution :=
  if ref.kind == .resource then
    match r.workspace.resolveResource d u.project ref.name with
    | (some id, workspace) => { r with workspace }.add self id
    | (none, workspace) =>
      { r with workspace }.warn u.path ref.line ("resource " ++ ref.name ++ " not found")
  else
    let qname := ((r.workspace.project? u.project).map fun c => c.qualifiedName f ref.name).getD []
    if qname.isEmpty then r.warn u.path ref.line ("no namespace mapping for " ++ ref.name)
    else
      match r.workspace.resolve d u.project qname with
      | (some id, workspace) => { r with workspace }.add self id
      | (none, workspace) =>
        if needsWarning ref then
          { r with workspace }.warn u.path ref.line
            ("cannot resolve " ++ qname ++ " (" ++ ref.kind.label ++ ")")
        else { r with workspace }

/-- The dependencies of a unit. They are recorded, so that a change to one of them invalidates
the unit. `none` means canceled. -/
def dependencies (w : Workspace) (d : Disk) (canceled : Bool) (id : UnitId) : Option (List UnitId) × Workspace :=
  match w.unit? id with
  | none => (some [], w)
  | some u =>
    if u.isResolved then (some u.dependencies, w)
    else
      match w.tree d canceled id with
      | (none, w) => (none, w)
      | (some result, w) =>
        let r := result.file.references.foldl (resolveReference d id u result.file) { workspace := w }
        (some r.dependencies, r.workspace.setDependencies id result.version r.dependencies r.diagnostics)

def dependenciesM (d : Disk) (id : UnitId) : StateM Workspace (List UnitId) := fun w =>
  let (deps, w) := w.dependencies d false id
  (deps.getD [], w)

def dependencyDiagnostics (w : Workspace) (id : UnitId) : List Diagnostic :=
  ((w.unit? id).map (·.dependencyDiagnostics)).getD []

def displayName (w : Workspace) (id : UnitId) : Text := ((w.unit? id).map (·.displayName)).getD []

def cycleWarning (w : Workspace) (u d : UnitId) : Diagnostic :=
  .warning .cycle (w.unitPath u) 0
    ("dependency cycle: " ++ w.displayName u ++ " -> " ++ w.displayName d ++ "; edge dropped")

def eventDiagnostics (w : Workspace) : LinkOrder.Event UnitId → List Diagnostic
  | .entered u => w.dependencyDiagnostics u
  | .dropped u d => [w.cycleWarning u d]

/-- No path of dependencies is longer than there are units, and a unit is made only for a path
that is on the disk. -/
def depthBound (w : Workspace) (d : Disk) : Nat := w.pool.length + d.entries.length + 1

/-- Everything reachable from some units in link order, and what was found on the way. `none` means
canceled. -/
def reachable (w : Workspace) (d : Disk) (canceled : Bool) (roots : List UnitId) :
    Option (List UnitId × List Diagnostic) × Workspace :=
  match canceled, roots with
  | true, root :: _ => (none, (w.dependencies d true root).2)
  | _, _ =>
    let (t, w) := (LinkOrder.traverse (dependenciesM d) (w.depthBound d) roots : StateM Workspace _) w
    (some (t.done.reverse, t.events.reverse.flatMap w.eventDiagnostics), w)

end Workspace

structure BuildPlan where
  root : UnitId
  reachable : List UnitId
  emitted : List UnitId

def Workspace.plan (w : Workspace) (d : Disk) (canceled : Bool) (root : UnitId) :
    Option (BuildPlan × List Diagnostic) × Workspace :=
  match w.reachable d canceled [root] with
  | (none, w) => (none, w)
  | (some (units, diagnostics), w) =>
    (some (⟨root, units, units.filter fun id => (w.unit? id).any (·.isEmittable)⟩, diagnostics), w)

end ScriptBuild
