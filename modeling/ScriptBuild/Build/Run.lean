import ScriptBuild.Artifact.Output
import ScriptBuild.Duration
import ScriptBuild.Emit.JavaScript
import ScriptBuild.Emit.TypeScript
import ScriptBuild.Project.Plan

/-! A build: orders the units that a root reaches, writes one artifact for each unit that is emitted, and reports. -/

namespace ScriptBuild

open Text Diagnostic

structure UnitReport where
  name : Text
  path : Text
  artifact : Text := []
  bytes : Int := 0
  fingerprint : Text := []
  isSkipped : Bool := false

structure PlanCounts where
  reachable : Int
  emittable : Int
  libraries : Int
  resources : Int

structure CacheCounts where
  entries : Int
  hits : Int
  misses : Int

def CacheCounts.requests (c : CacheCounts) : Int := Integer.toInt64 (c.hits + c.misses)

structure BuildReport where
  backend : Text
  root : Text
  outputRoot : Text
  plan : PlanCounts
  units : List UnitReport
  cache : CacheCounts
  diagnostics : List Diagnostic
  duration : Duration := ⟨0⟩

namespace BuildReport

def isSuccess (r : BuildReport) : Bool := !hasErrors r.diagnostics

def written (r : BuildReport) : List UnitReport := r.units.filter fun u => !u.isSkipped

def skippedCount (r : BuildReport) : Nat := r.units.countP (·.isSkipped)

def totalBytes (r : BuildReport) : Int := (r.written.map (·.bytes)).foldl (· + ·) 0

/-- `n` with its 53 leading binary digits; what they lose is rounded. -/
def leadingBits (n : Nat) : Nat :=
  let scale := 1 <<< (n.log2 - 52)
  Nearest.round n scale * scale

/-- `n / d` with one decimal place, halves to the even neighbour. -/
def oneDecimal (n d : Nat) : Text :=
  let tenths := Nearest.round (10 * n) d
  ofNat (tenths / 10) ++ "." ++ ofNat (tenths % 10)

def sizeText (b : Int) : Text :=
  if b ≥ 1048576 then oneDecimal (leadingBits b.toNat) 1048576 ++ " MB"
  else if b ≥ 1024 then oneDecimal b.toNat 1024 ++ " KB"
  else ofInt b ++ " B"

def summary (r : BuildReport) : Text :=
  let status : Text := if r.isSuccess then "ok" else "FAILED"
  let total := r.cache.requests
  "kiln build " ++ r.root ++ " (" ++ r.backend ++ ") " ++ status ++ " in " ++ r.duration.toMilliseconds.text ++ "\n" ++
  "  reachable:  " ++ ofInt r.plan.reachable ++ " units (" ++ ofInt r.plan.emittable ++
    " emittable, " ++ ofInt r.plan.libraries ++ " library, " ++ ofInt r.plan.resources ++
    " resource)\n" ++
  "  output:     " ++ ofNat r.written.length ++ " files, " ++ sizeText (Integer.toInt64 r.totalBytes) ++ " -> " ++
    r.outputRoot ++ "\n" ++
  (if r.skippedCount > 0 then "  skipped:    " ++ ofNat r.skippedCount ++ " units\n" else []) ++
  (if total > 0 then
    "  bodies:     " ++ ofInt r.cache.entries ++ " cached, " ++ ofInt r.cache.hits ++ "/" ++
      ofInt total ++ " hits\n"
  else []) ++
  "  diagnostics: " ++ ofNat (errorCount r.diagnostics) ++ " errors, " ++
    ofNat (warningCount r.diagnostics) ++ " warnings\n"

def unitJson (u : UnitReport) : Json :=
  let textIf (key s : Text) : List (Text × Json) := Json.memberIf (!s.isEmpty) key (.string s)
  .object ([(ofString "name", .string u.name), ("path", .string u.path)] ++ textIf "artifact" u.artifact ++
    [(ofString "bytes", .int u.bytes), ("duration_ms", .nat 0)] ++ textIf "fingerprint" u.fingerprint ++
    Json.memberIf u.isSkipped "skipped" (.bool true))

def toJson (r : BuildReport) (started finished : Text) : Json :=
  .object [
    ("started_at", .string started),
    ("finished_at", .string finished),
    ("duration_ms", .int r.duration.nanoseconds),
    ("backend", .string r.backend),
    ("root", .string r.root),
    ("success", .bool r.isSuccess),
    ("plan", .object [
      ("reachable", .int r.plan.reachable),
      ("emittable", .int r.plan.emittable),
      ("libraries", .int r.plan.libraries),
      ("resources", .int r.plan.resources)]),
    ("output", .object [
      ("root", .string r.outputRoot),
      ("files_generated", .nat r.written.length),
      ("files_skipped", .nat r.skippedCount),
      ("total_bytes", .int (Integer.toInt64 r.totalBytes))]),
    ("body_cache", .object [
      ("entries", .int r.cache.entries),
      ("hits", .int r.cache.hits),
      ("misses", .int r.cache.misses)]),
    ("units", if r.units.isEmpty then .null else .array (r.units.map unitJson)),
    ("errors", .nat (errorCount r.diagnostics)),
    ("warnings", .nat (warningCount r.diagnostics))]

end BuildReport

def emitFile (c : EmitContext) : Buffer :=
  match c.settings.backend with
  | .javascript => JavaScript.file c
  | .typescript => TypeScript.file c

def emitDecl (c : EmitContext) (d : Decl) : Buffer :=
  match c.settings.backend with
  | .javascript => JavaScript.declaration c [] c.buffer d
  | .typescript => TypeScript.declaration c c.buffer d

def parseBodies (fs : List Function) : BodyTable × List Diagnostic :=
  let parsed := fs.filterMap fun f => f.body.map fun b => (f.line, b.parse)
  (parsed.map fun (line, block, _) => (line, block.statements), parsed.flatMap fun (_, _, ds) => ds)

namespace BodyCache

def resolveAll (c : BodyCache) (unit version : Nat) : List Function → (BodyTable × List Diagnostic) × BodyCache
  | [] => (([], []), c)
  | f :: fs =>
    match f.body with
    | none => c.resolveAll unit version fs
    | some body =>
      let ((block, ds), c) := c.resolve ⟨unit, version, f.line⟩ body
      let ((table, rest), c) := c.resolveAll unit version fs
      (((f.line, block.statements) :: table, ds ++ rest), c)

end BodyCache

structure Artifact where
  unit : UnitId
  path : Text
  bytes : Nat

structure UnitOutcome where
  unit : UnitId
  artifact : Option Artifact := none
  diagnostics : List Diagnostic := []
  isWriteFailure : Bool := false

structure BuildState (σ : Type) where
  workspace : Workspace
  world : σ

structure Builder (σ : Type) where
  project : ProjectId
  settings : Settings
  writer : Writer σ
  diskOf : σ → Disk
  canceled : Bool := false

inductive BuildError where
  | rootNotInProject (path : Text)
  | write (cause : WriteError)
  | plan (path : Text)
  | canceled

def BuildError.message : BuildError → Text
  | .rootNotInProject path => "root file is not in the project: " ++ path
  | .write cause => cause.message
  | .plan path => "compute reachable units from " ++ path ++ ": context canceled"
  | .canceled => "context canceled"

structure BuildResult where
  plan : BuildPlan
  outcomes : List UnitOutcome
  diagnostics : List Diagnostic
  report : BuildReport

namespace BuildResult

def isSuccess (r : BuildResult) : Bool := !hasErrors r.diagnostics

def artifacts (r : BuildResult) : List Artifact := r.outcomes.filterMap (·.artifact)

end BuildResult

namespace Builder

variable {σ : Type}

/-- The qualified name of a type in a file; a name that cannot be qualified stays as it is. -/
def qualify (w : Workspace) (p : ProjectId) (f : SourceFile) (name : Text) : Text :=
  if name.isEmpty then name
  else
    match w.project? p with
    | none => name
    | some config =>
      let q := config.qualifiedName f name
      if q.isEmpty then name else q

def writeArtifact (b : Builder σ) (s : BuildState σ) (id : UnitId) (u : CompilationUnit) (text : Text)
    (ds : List Diagnostic) : UnitOutcome × BuildState σ :=
  let path := artifactPath b.settings.backend.subdir u.spec.name b.settings.backend.extension
  match b.writer.write s.world path text with
  | (.ok (), world) => (⟨id, some ⟨id, path, text.length⟩, ds, false⟩, { s with world })
  | (.error e, world) =>
    let failure := error .failedAccess u.path 0 ("write " ++ path ++ ": " ++ e.message)
    (⟨id, none, ds ++ [failure], true⟩, { s with world })

/-- Emits a unit. A unit with errors has no artifact. -/
def emitUnit (b : Builder σ) (s : BuildState σ) (id : UnitId) : UnitOutcome × BuildState σ :=
  match s.workspace.unit? id, s.workspace.tree (b.diskOf s.world) b.canceled id with
  | some u, (some tree, workspace) =>
    if tree.hasErrors then ({ unit := id }, { s with workspace })
    else
      let ((bodies, ds), cache) :=
        workspace.bodies.resolveAll id tree.version tree.file.emittedFunctions
      let workspace := { workspace with bodies := cache }
      if hasErrors ds then ({ unit := id, diagnostics := ds }, { s with workspace })
      else
        let context : EmitContext :=
          { settings := b.settings
            file := tree.file
            unitName := some u.spec.name
            qualify := qualify workspace b.project tree.file
            bodies }
        b.writeArtifact { s with workspace } id u (emitFile context).text ds
  | _, (_, workspace) => ({ unit := id }, { s with workspace })

def emitUnits (b : Builder σ) (s : BuildState σ) : List UnitId → List UnitOutcome × BuildState σ
  | [] => ([], s)
  | id :: ids =>
    let (outcome, s) := b.emitUnit s id
    let (outcomes, s) := b.emitUnits s ids
    (outcome :: outcomes, s)

def treeDiagnostics (w : Workspace) (d : Disk) : List UnitId → List Diagnostic × Workspace
  | [] => ([], w)
  | id :: ids =>
    let (tree, w) := w.tree d false id
    let (rest, w) := treeDiagnostics w d ids
    (((tree.map (·.diagnostics)).getD []) ++ rest, w)

def unitReport (w : Workspace) (fingerprints : Dictionary Fingerprint) (o : UnitOutcome) : UnitReport :=
  { name := ((w.unit? o.unit).map (·.spec.name)).getD []
    path := w.unitPath o.unit
    artifact := (o.artifact.map (·.path)).getD []
    bytes := (o.artifact.map (·.bytes)).getD 0
    fingerprint := ((fingerprints.find? (w.unitPath o.unit)).map (·.composite)).getD []
    isSkipped := o.artifact.isNone }

def planCounts (w : Workspace) (plan : BuildPlan) : PlanCounts :=
  let units := plan.reachable.filterMap w.unit?
  { reachable := plan.reachable.length
    emittable := plan.emitted.length
    libraries := units.countP fun u => u.spec.kind != .resource && u.spec.isLibrary
    resources := units.countP fun u => u.spec.kind == .resource }

/-- The units of a plan are emitted by `emit`. -/
def executeWith (b : Builder σ) (emit : BuildState σ → List UnitId → List UnitOutcome × BuildState σ)
    (s : BuildState σ) (root : UnitId) (plan : BuildPlan) (ds : List Diagnostic) :
    BuildResult × BuildState σ :=
  let (treeDs, w) := treeDiagnostics s.workspace (b.diskOf s.world) plan.reachable
  let (outcomes, s) := emit { s with workspace := w } plan.emitted
  let (fingerprints, w) := s.workspace.fingerprints (b.diskOf s.world) false plan.reachable
  let diagnostics := ds ++ treeDs ++ outcomes.flatMap (·.diagnostics)
  let report : BuildReport :=
    { backend := b.settings.backend.name
      root := w.unitPath root
      outputRoot := b.settings.outputRoot
      plan := planCounts w plan
      units := outcomes.map (unitReport w (fingerprints.getD []))
      cache := ⟨w.bodies.entries.length, w.bodies.hits, w.bodies.misses⟩
      diagnostics }
  (⟨plan, outcomes, diagnostics, report⟩, { s with workspace := w })

def execute (b : Builder σ) : BuildState σ → UnitId → BuildPlan → List Diagnostic → BuildResult × BuildState σ :=
  b.executeWith b.emitUnits

/-- What a build does when its root is known and the output is prepared. -/
def buildFrom (b : Builder σ) (emit : BuildState σ → List UnitId → List UnitOutcome × BuildState σ)
    (s : BuildState σ) (root : UnitId) : Except BuildError BuildResult × BuildState σ :=
  match s.workspace.plan (b.diskOf s.world) b.canceled root with
  | (none, workspace) => (.error (.plan (workspace.unitPath root)), { s with workspace })
  | (some (plan, ds), workspace) =>
    if b.canceled then (.error .canceled, { s with workspace })
    else
      let (result, s) := b.executeWith emit { s with workspace } root plan ds
      (.ok result, s)

def buildWith (b : Builder σ) (emit : BuildState σ → List UnitId → List UnitOutcome × BuildState σ)
    (s : BuildState σ) (path : Text) : Except BuildError BuildResult × BuildState σ :=
  match s.workspace.request b.project ((b.diskOf s.world).absolute path) with
  | (none, workspace) => (.error (.rootNotInProject path), { s with workspace })
  | (some root, workspace) =>
    match b.writer.prepare s.world with
    | (.error e, world) => (.error (.write e), ⟨workspace, world⟩)
    | (.ok (), world) => b.buildFrom emit ⟨workspace, world⟩ root

def build (b : Builder σ) : BuildState σ → Text → Except BuildError BuildResult × BuildState σ :=
  b.buildWith b.emitUnits

end Builder

end ScriptBuild
