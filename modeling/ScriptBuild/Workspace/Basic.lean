import ScriptBuild.Project.Config
import ScriptBuild.Source.Block

/-! A workspace holds the units of its projects, with parsed trees that are dropped on changes. -/

namespace ScriptBuild

/-- A function body: the unit and version of its tree, and its line there. -/
structure BodyKey where
  unit : Nat
  version : Nat
  line : Nat
  deriving DecidableEq

structure BodyCache where
  size : Nat := 1024
  /-- The most recently used body first. -/
  entries : List (BodyKey × (Block × List Diagnostic)) := []
  hits : Nat := 0
  misses : Nat := 0

namespace BodyCache

/-- A cache of a size that is positive, or else of the usual one. -/
def ofSize (size : Int) : BodyCache := if size > 0 then { size := size.toNat } else {}

def resolve (c : BodyCache) (key : BodyKey) (body : Body) : (Block × List Diagnostic) × BodyCache :=
  match c.entries.lookup key with
  | some parsed =>
    (parsed, { c with
        entries := (key, parsed) :: c.entries.filter fun (k, _) => k != key
        hits := c.hits + 1 })
  | none =>
    let parsed := body.parse
    (parsed, { c with
        entries := ((key, parsed) :: c.entries).take c.size
        misses := c.misses + 1 })

end BodyCache

structure SyntaxResult where
  file : SourceFile
  diagnostics : List Diagnostic
  version : Nat
  /-- The digest of the content; empty if it could not be read. -/
  fingerprint : Text

def SyntaxResult.hasErrors (r : SyntaxResult) : Bool := Diagnostic.hasErrors r.diagnostics

inductive SyntaxCell where
  | idle
  | started
  | finished (r : SyntaxResult)

abbrev UnitId := Nat

abbrev ProjectId := Nat

structure CompilationUnit where
  project : ProjectId
  path : Text
  spec : UnitSpec
  /-- Grows with every invalidation. -/
  version : Nat := 0
  cell : SyntaxCell := .idle
  dependencies : List UnitId := []
  dependencyDiagnostics : List Diagnostic := []
  /-- The version they were recorded for. -/
  resolvedVersion : Option Nat := none

namespace CompilationUnit

def isResolved (u : CompilationUnit) : Bool := u.resolvedVersion == some u.version

/-- Whether a current dependency set names something that was not found. -/
def hasUnresolved (u : CompilationUnit) : Bool :=
  u.isResolved && u.dependencyDiagnostics.any fun d => d.kind == .unresolved

/-- The digest of the content last parsed; empty before that. -/
def fingerprint (u : CompilationUnit) : Text :=
  match u.cell with
  | .finished r => r.fingerprint
  | .idle | .started => []

def invalidated (u : CompilationUnit) : CompilationUnit :=
  { u with version := u.version + 1, cell := .idle }

def displayName (u : CompilationUnit) : Text := if u.spec.name.isEmpty then u.path else u.spec.name

def isEmittable (u : CompilationUnit) : Bool := !u.spec.isLibrary && u.spec.kind != .resource

end CompilationUnit

structure Workspace where
  projects : List ProjectConfig := []
  /-- Every unit there ever was, by its number. -/
  pool : List CompilationUnit := []
  /-- The units there are now. -/
  registry : List ((ProjectId × Text) × UnitId) := []
  dependents : List (UnitId × UnitId) := []
  /-- The projects that asked for units. -/
  owners : List ProjectId := []
  bodies : BodyCache := {}
  parses : Nat := 0
  /-- Parses that wait for their file, with the versions they are for. -/
  waiting : List (UnitId × Nat) := []

namespace Workspace

def unit? (w : Workspace) (id : UnitId) : Option CompilationUnit := w.pool[id]?

def update (w : Workspace) (id : UnitId) (f : CompilationUnit → CompilationUnit) : Workspace :=
  { w with pool := w.pool.modify id f }

def project? (w : Workspace) (p : ProjectId) : Option ProjectConfig := w.projects[p]?

def describe (w : Workspace) (p : ProjectId) (path : Text) : Option UnitSpec :=
  (w.project? p).bind fun config => config.describe path

def lookup (w : Workspace) (p : ProjectId) (path : Text) : Option UnitId := w.registry.lookup (p, path)

def request (w : Workspace) (p : ProjectId) (path : Text) : Option UnitId × Workspace :=
  let w := { w with owners := if w.owners.contains p then w.owners else w.owners ++ [p] }
  match w.lookup p path with
  | some id => (some id, w)
  | none =>
    match w.describe p path with
    | none => (none, w)
    | some spec =>
      let id := w.pool.length
      (some id, { w with
          pool := w.pool ++ [{ project := p, path, spec }]
          registry := w.registry ++ [((p, path), id)] })

def unitPath (w : Workspace) (id : UnitId) : Text := ((w.unit? id).map (·.path)).getD []

def sortByPath (w : Workspace) (ids : List UnitId) : List UnitId :=
  ids.mergeSort fun a b => Text.ble (w.unitPath a) (w.unitPath b)

def members (w : Workspace) (p : ProjectId) : List UnitId :=
  (w.registry.filter fun ((q, _), _) => q == p).map (·.2)

def all (w : Workspace) (p : ProjectId) : List UnitId := w.sortByPath (w.members p)

def atPath (w : Workspace) (path : Text) : List UnitId :=
  (w.registry.filter fun ((_, q), _) => q == path).map (·.2)

def addNew (ids : List UnitId) (id : UnitId) : List UnitId :=
  if ids.contains id then ids else ids ++ [id]

def widen (w : Workspace) (ids : List UnitId) : List UnitId :=
  (w.dependents.filter fun (d, _) => ids.contains d).foldl (fun ids (_, u) => addNew ids u) ids

/-- The given units and everything that depends on one of them. There are no more rounds than
units. -/
def closure (w : Workspace) (ids : List UnitId) : List UnitId :=
  (List.range w.pool.length).foldl (fun ids _ => w.widen ids) (ids.foldl addNew [])

def invalidateAll (w : Workspace) (ids : List UnitId) : Workspace :=
  ids.foldl (fun w id => w.update id CompilationUnit.invalidated) w

/-- Drops the trees of the units at a path and of everything that depends on them. -/
def invalidate (w : Workspace) (path : Text) : List UnitId × Workspace :=
  let affected := w.closure (w.atPath path)
  (w.sortByPath affected, w.invalidateAll affected)

def isUnresolved (w : Workspace) (id : UnitId) : Bool := (w.unit? id).any (·.hasUnresolved)

def unresolved (w : Workspace) (p : ProjectId) : List UnitId := (w.members p).filter w.isUnresolved

/-- Invalidates the units of a project that a change of its search paths may resolve differently. -/
def reresolve (w : Workspace) (p : ProjectId) : List UnitId × Workspace :=
  let affected := w.closure (w.unresolved p)
  (w.sortByPath affected, w.invalidateAll affected)

/-- Removes the units of a project whose path it no longer describes; units that depended on them, or have names that
were not found, are invalidated. -/
def evict (w : Workspace) (p : ProjectId) : List Text × Workspace :=
  let gone := (w.members p).filter fun id => (w.describe p (w.unitPath id)).isNone
  let stale := (w.closure (gone ++ w.unresolved p)).filter fun id => !gone.contains id
  let paths := Text.sort (gone.map w.unitPath)
  let w :=
    { w with
      registry := w.registry.filter fun (_, id) => !gone.contains id
      dependents := w.dependents.filter fun (d, u) => !gone.contains d && !gone.contains u }
  (paths, w.invalidateAll stale)

def configure (w : Workspace) (p : ProjectId) (f : ProjectConfig → ProjectConfig) : Workspace :=
  { w with projects := w.projects.modify p f }

def setSourcePaths (w : Workspace) (p : ProjectId) (paths : List Text) : Workspace :=
  ((w.configure p fun c => { c with sourcePaths := paths }).evict p).2

def setLibraryPaths (w : Workspace) (p : ProjectId) (paths : List Text) : Workspace :=
  ((w.configure p fun c => { c with libraryPaths := paths }).evict p).2

def setNamespaces (w : Workspace) (p : ProjectId) (namespaces : Dictionary Text) : Workspace :=
  ((w.configure p fun c => { c with namespaces }).reresolve p).2

def setExcludes (w : Workspace) (p : ProjectId) (excludes : List PathGlob) : Workspace :=
  ((w.configure p fun c => { c with excludes }).evict p).2

/-- Records the dependencies of a unit for a version; those of an old version are ignored. -/
def setDependencies (w : Workspace) (id : UnitId) (version : Nat) (dependencies : List UnitId)
    (diagnostics : List Diagnostic) : Workspace :=
  match w.unit? id with
  | none => w
  | some u =>
    if u.version != version then w
    else
      let w := w.update id fun u =>
        { u with
          dependencies
          dependencyDiagnostics := diagnostics
          resolvedVersion := some version }
      let kept := w.dependents.filter fun (d, v) => !(v == id && u.dependencies.contains d)
      let added := (dependencies.eraseDups.map fun d => (d, id)).filter fun pair => !kept.contains pair
      { w with dependents := kept ++ added }

def dependentsOf (w : Workspace) (id : UnitId) : List UnitId :=
  w.sortByPath ((w.dependents.filter fun (d, _) => d == id).map (·.2))

end Workspace

end ScriptBuild
