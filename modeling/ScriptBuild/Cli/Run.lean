import ScriptBuild.Cli.Complete
import ScriptBuild.Config.Load
import ScriptBuild.Graph.Analysis
import ScriptBuild.Graph.Database
import ScriptBuild.Graph.Export
import ScriptBuild.Tracing
import ScriptBuild.Worker.Build
import ScriptBuild.Workspace.Watcher

/-! The commands that end by themselves. -/

namespace ScriptBuild

open Text

inductive CommandError where
  | flag (cause : FlagError)
  | argumentCount (wanted got : Nat)
  | fewArguments (wanted got : Nat)
  | strayArgument (argument path : Text)
  | config (cause : ConfigError)
  | log (cause : LogError)
  | tracing (cause : TracingError)
  | namespaceMapping (value : Text)
  | pipeline (cause : PipelineError)
  | build (cause : BuildError)
  | failedBuild (errors : Nat)
  | stubs (cause : TaskError)
  | failedStubs (errors : Nat)
  | notOnPath (root : Text)
  | canceled
  | database (cause : DatabaseError)
  | unknownFormat (format : Text)
  | watch (cause : WatchError)

def CommandError.message : CommandError → Text
  | .flag cause => cause.message
  | .argumentCount wanted got => "accepts " ++ ofNat wanted ++ " arg(s), received " ++ ofNat got
  | .fewArguments wanted got =>
    "requires at least " ++ ofNat wanted ++ " arg(s), only received " ++ ofNat got
  | .strayArgument argument path => "unknown command " ++ argument.quote ++ " for " ++ path.quote
  | .config cause => cause.message
  | .log cause => cause.message
  | .tracing cause => "tracing: " ++ cause.message
  | .namespaceMapping value => "namespace " ++ value.quote ++ ": expected uri=package"
  | .pipeline cause => cause.message
  | .build cause => cause.message
  | .failedBuild errors => "build failed with " ++ ofNat errors ++ " error(s)"
  | .stubs cause => cause.message
  | .failedStubs errors => "extern failed with " ++ ofNat errors ++ " error(s)"
  | .notOnPath root => root ++ " is not on a source or library path"
  | .canceled => "context canceled"
  | .database cause => cause.message
  | .unknownFormat format => "unknown format " ++ format.quote ++ " (want text, dot, mermaid or json)"
  | .watch cause => "watch: " ++ cause.message

structure Console where
  storage : Storage
  environment : Dictionary Text := []
  now : Text := []
  output : Text := []
  errors : Text := []

abbrev Shell (α : Type) := ExceptT CommandError (StateM Console) α

namespace Shell

def print (s : Text) : Shell Unit := modify fun c => { c with output := c.output ++ s }

def printError (s : Text) : Shell Unit := modify fun c => { c with errors := c.errors ++ s }

def lift {α ε : Type} (wrap : ε → CommandError) : Except ε α → Shell α
  | .ok x => pure x
  | .error e => throw (wrap e)

def printDiagnostics (ds : List Diagnostic) : Shell Unit := ds.forM fun d => printError (d.render ++ "\n")

def loadConfig (path : Text) : Shell Config := do
  let c ← get
  let config ← lift .config (Config.load c.storage.disk c.environment path)
  config.warnings.forM fun warning => printError ("Warning: " ++ warning ++ "\n")
  return config

/-- Mappings of namespaces to packages; the last `=` divides them. -/
def namespaceMappings : List Text → Except Text (Dictionary Text)
  | [] => .ok []
  | value :: rest =>
    match cutLast? "=" value with
    | some (uri, package) =>
      if uri.isEmpty then .error value else (namespaceMappings rest).map fun d => (uri, package) :: d
    | none => .error value

def buildConfig (i : Invocation) : Shell Config := do
  let config ← loadConfig (i.text "config")
  let mappings ← lift .namespaceMapping (namespaceMappings (i.list "namespace"))
  let b := config.build
  let choose (flag : Text) (old : Text) : Text := if (i.text flag).isEmpty then old else i.text flag
  let chooseList (flag : Text) (old : List Text) : List Text := if (i.list flag).isEmpty then old else i.list flag
  let sourcePaths := chooseList "source-path" b.sourcePaths
  let build : BuildSection :=
    { b with
      backend := choose "backend" b.backend
      outputRoot := choose "output" b.outputRoot
      sourcePaths := if sourcePaths.isEmpty then ["."] else sourcePaths
      libraryPaths := chooseList "library-path" b.libraryPaths
      namespaces := mappings.foldl (fun d (uri, package) => d.insert uri package) b.namespaces }
  return { config with build }

def startLogger (config : Config) : Shell Logger := lift .log (Logger.ofNames config.log.level config.log.format)

def setup (i : Invocation) : Shell (Config × Pipeline) := do
  let config ← buildConfig i
  let _ ← startLogger config
  let _ ← lift .tracing (Tracer.start config.tracing.endpoint)
  let c ← get
  let p ← lift .pipeline (Pipeline.ofConfig config.pipelineConfig c.storage)
  return (config, p)

def keepStorage (p : Pipeline) : Shell Unit := modify fun c => { c with storage := p.state.world }

def build (i : Invocation) (root : Text) : Shell Unit := do
  let (_, p) ← setup i
  let (result, p) := p.build false root
  keepStorage p
  let r ← lift .build result
  printDiagnostics r.diagnostics
  if i.isOn "json" then
    let now := (← get).now
    print ((r.report.toJson now now).pretty 0 ++ "\n")
  else print r.report.summary
  if !r.isSuccess then throw (.failedBuild (Diagnostic.errorCount r.diagnostics))

/-- The settings of a stub run; flags that are given replace what the file says. -/
def stubOptions (i : Invocation) (s : StubOptions) : StubOptions :=
  let choose (flag : Text) (old : List Text) : List Text := if i.isSet flag then i.list flag else old
  { s with
    root := if i.isSet "as-root" then i.text "as-root" else s.root
    externals := choose "external" s.externals
    flattened := choose "class-to-function" s.flattened
    classExcludes := choose "class-exclude" s.classExcludes
    fieldExcludes := choose "field-exclude" s.fieldExcludes
    memberExcludes := choose "exclude" s.memberExcludes }

def stubs (i : Invocation) : Shell Unit := do
  let config ← loadConfig (i.text "config")
  let _ ← startLogger config
  let options := stubOptions i config.stubs
  let c ← get
  let (result, disk) := Task.compileStubs options c.storage.disk
  set { c with storage := { c.storage with disk } }
  let r ← lift .stubs result
  printDiagnostics r.diagnostics
  print ("Wrote " ++ ofNat r.files.length ++ " stub(s) under " ++ options.root ++ " (" ++
    ofNat r.excluded ++ " excluded)\n")
  if Diagnostic.hasErrors r.diagnostics then throw (.failedStubs (Diagnostic.errorCount r.diagnostics))

def analyze (p : Pipeline) (root : Text) : Except CommandError (UnitGraph × List Diagnostic) :=
  let d := p.state.world.disk
  match p.state.workspace.request 0 (d.absolute root) with
  | (none, _) => .error (.notOnPath root)
  | (some id, w) =>
    match w.plan d false id with
    | (none, _) => .error .canceled
    | (some (plan, ds), w) => .ok ((w.analyze d plan).1, ds)

def render (g : UnitGraph) (format : Text) : Except CommandError Text :=
  if format == "text" || format.isEmpty then .ok (g.summary g.stats)
  else if format == "dot" then .ok g.dot
  else if format == "mermaid" then .ok g.diagram
  else if format == "json" then .ok ((g.toJson g.stats).pretty 0 ++ "\n")
  else .error (.unknownFormat format)

def graph (i : Invocation) (root : Text) : Shell Unit := do
  let (config, p) ← setup i
  let (g, ds) ← lift id (analyze p root)
  printDiagnostics ds
  if i.isOn "store" then throw (.database (Database.connect config.graph.uri))
  let id := i.text "dependents"
  if !id.isEmpty then (g.dependents id).forM fun unit => print (unit ++ "\n")
  else print (← lift (fun e => e) (render g (if i.isSet "format" then i.text "format" else "text")))

def backendLine (b : Backend) : Text :=
  "  " ++ padRight 12 b.name ++ " " ++ b.subdir ++ "/*." ++ b.extension ++ "\n"

def backends : Shell Unit := do
  print "Available backends:\n\n"
  Backend.all.forM fun b => print (backendLine b)

/-- The help of the command that some words call. The command for completion scripts has none. -/
def help (words : List Text) : Shell Unit :=
  match (Command.find words).toOption.filter fun (c, _) => c.id != .complete with
  | some (c, _) => print c.helpText
  | none => do
    printError ("Unknown help topic [" ++ join " " (words.map backquote) ++ "]\n")
    printError (Command.root.usage [])

/-- The words that may come next after some words. Descriptions are left out under one name of the
command, and where the environment says so. -/
def complete (isBrief : Bool) (words : List Text) : Shell Unit := do
  let environment := (← get).environment
  let setting (name : Text) : Text := (environment.find? name).getD []
  let own := setting "KILN_COMPLETION_DESCRIPTIONS"
  let wish := if own.isEmpty then setting "COBRA_COMPLETION_DESCRIPTIONS" else own
  let c := Completion.ofWords words
  print (c.text (!isBrief && toBool? wish != some false))
  printError c.notes

end Shell

end ScriptBuild
