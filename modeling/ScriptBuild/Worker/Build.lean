import ScriptBuild.Config.Basic
import ScriptBuild.Stub.Run

/-! Builds as tasks of a worker. -/

namespace ScriptBuild

open Diagnostic

structure CompileOutcome where
  root : Text
  isSuccess : Bool
  artifacts : List Text
  errors : Nat
  warnings : Nat
  diagnostics : List Text

structure StubOutcome where
  isSuccess : Bool
  files : List Text
  excluded : Nat
  errors : Nat
  warnings : Nat
  diagnostics : List Text

inductive TaskError where
  | setup (cause : PipelineError)
  | build (cause : BuildError)
  | stubConfig (cause : StubConfigError)
  | stubs (cause : StubError)

namespace TaskError

def message : TaskError → Text
  | .setup cause => cause.message
  | .build cause => cause.message
  | .stubConfig cause => cause.message
  | .stubs cause => cause.message

def finalType? : TaskError → Option Text
  | .setup _ => some "SetupError"
  | .build (.rootNotInProject _) => some "RootNotInProject"
  | .stubConfig cause =>
    if cause.isMalformed then some "MalformedExclusionArgument"
    else if cause.isMissingFile then some "MissingFile"
    else none
  | .stubs (.corpus (.missing _)) => some "MissingFile"
  | _ => none

end TaskError

namespace CompileOutcome

def ofResult (root : Text) (r : BuildResult) : CompileOutcome :=
  { root
    isSuccess := r.isSuccess
    artifacts := r.artifacts.map (·.path)
    errors := errorCount r.diagnostics
    warnings := warningCount r.diagnostics
    diagnostics := r.diagnostics.map render }

def toJson (c : CompileOutcome) : Json :=
  .object [("root", .string c.root), ("success", .bool c.isSuccess), ("artifacts", .strings c.artifacts),
    ("errors", .nat c.errors), ("warnings", .nat c.warnings), ("diagnostics", .strings c.diagnostics)]

end CompileOutcome

namespace StubOutcome

def ofResult (r : StubResult) : StubOutcome :=
  { isSuccess := !hasErrors r.diagnostics
    files := r.files
    excluded := r.excluded
    errors := errorCount r.diagnostics
    warnings := warningCount r.diagnostics
    diagnostics := r.diagnostics.map render }

def toJson (s : StubOutcome) : Json :=
  .object [("success", .bool s.isSuccess), ("files", .strings s.files), ("excluded", .nat s.excluded),
    ("errors", .nat s.errors), ("warnings", .nat s.warnings), ("diagnostics", .strings s.diagnostics)]

end StubOutcome

abbrev Task (α : Type) := StateM Storage (Except TaskError α)

namespace Task

def compile (c : BuildConfig) (root : Text) : Task CompileOutcome := fun storage =>
  match Pipeline.ofConfig c storage with
  | .error e => (.error (.setup e), storage)
  | .ok p =>
    match p.build false root with
    | (.error e, p) => (.error (.build e), p.state.world)
    | (.ok r, p) => (.ok (.ofResult root r), p.state.world)

def compileStubs (options : StubOptions) : StateM Disk (Except TaskError StubResult) := fun disk =>
  match StubConfig.ofOptions disk options with
  | .error e => (.error (.stubConfig e), disk)
  | .ok config =>
    match StubRun.compile { config, writer := FileTree.writer config.root {}, cancelAfter := none } disk disk with
    | (.error e, disk) => (.error (.stubs e), disk)
    | (.ok r, disk) => (.ok r, disk)

def stubs (options : StubOptions) : Task StubOutcome := fun storage =>
  let (result, disk) := compileStubs options storage.disk
  (result.map .ofResult, { storage with disk })

def compileEach (c : BuildConfig) : List Text → StateM Storage (List (Except TaskError CompileOutcome))
  | [] => pure []
  | root :: rest => do
    let first ← compile c root
    return first :: (← compileEach c rest)

end Task

structure WorkflowOutcome where
  isSuccess : Bool := true
  artifacts : Nat := 0
  errors : Nat := 0
  warnings : Nat := 0
  roots : List CompileOutcome := []
  stubs : Option StubOutcome := none

structure WorkflowError where
  step : Text
  cause : TaskError

namespace WorkflowOutcome

def addStubs (w : WorkflowOutcome) (s : StubOutcome) : WorkflowOutcome :=
  { w with
    isSuccess := w.isSuccess && s.isSuccess
    errors := w.errors + s.errors
    warnings := w.warnings + s.warnings
    stubs := some s }

def addRoot (w : WorkflowOutcome) (c : CompileOutcome) : WorkflowOutcome :=
  { w with
    isSuccess := w.isSuccess && c.isSuccess
    artifacts := w.artifacts + c.artifacts.length
    errors := w.errors + c.errors
    warnings := w.warnings + c.warnings
    roots := w.roots ++ [c] }

def addRoots (w : WorkflowOutcome) :
    List (Text × Except TaskError CompileOutcome) → Except WorkflowError WorkflowOutcome
  | [] => .ok w
  | (root, .error cause) :: _ => .error ⟨"compile " ++ root, cause⟩
  | (_, .ok c) :: rest => (w.addRoot c).addRoots rest

/-- The outcome after stubs are made, if they are wanted. -/
def start : Option StubOptions → StateM Storage (Except WorkflowError WorkflowOutcome)
  | none => pure (.ok {})
  | some options => do
    match ← Task.stubs options with
    | .error cause => return .error ⟨"extern", cause⟩
    | .ok s => return .ok (({} : WorkflowOutcome).addStubs s)

/-- Makes stubs, if wanted, and then builds roots. Stubs with errors end it. -/
def run (c : BuildConfig) (options : Option StubOptions) (roots : List Text) :
    StateM Storage (Except WorkflowError WorkflowOutcome) := do
  match ← start options with
  | .error e => return .error e
  | .ok w =>
    if !w.isSuccess then return .ok w
    let results ← Task.compileEach c roots
    return w.addRoots (roots.zip results)

def toJson (w : WorkflowOutcome) : Json :=
  .object [("success", .bool w.isSuccess), ("artifacts", .nat w.artifacts), ("errors", .nat w.errors),
    ("warnings", .nat w.warnings), ("roots", .array (w.roots.map CompileOutcome.toJson)),
    ("extern", (w.stubs.map StubOutcome.toJson).getD .null)]

end WorkflowOutcome

end ScriptBuild
