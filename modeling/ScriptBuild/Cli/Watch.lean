import ScriptBuild.Cli.Run
import ScriptBuild.Metrics.Build
import ScriptBuild.Server.Events
import ScriptBuild.Server.Health

/-! The command that builds a root again whenever its files change. -/

namespace ScriptBuild

structure WatchSession where
  root : Text
  config : Config
  pipeline : Pipeline
  watcher : Watcher
  console : Console
  status : BuildStatus := {}
  hub : EventHub := {}

namespace WatchSession

def failure (s : BuildSummary) : BuildSummary := { s with errors := 1 }

def success (s : BuildSummary) (r : BuildResult) : BuildSummary :=
  { s with
    isSuccess := r.isSuccess
    artifacts := r.artifacts.length
    errors := Diagnostic.errorCount r.diagnostics
    warnings := Diagnostic.warningCount r.diagnostics
    duration := r.report.duration }

def summaryLine (s : BuildSummary) : Text :=
  "[" ++ Text.ofNat s.sequence ++ "] " ++ s.root ++ ": " ++ Text.ofInt s.artifacts ++ " artifact(s), " ++
    Text.ofInt s.errors ++ " error(s), " ++ Text.ofInt s.warnings ++ " warning(s) in " ++
    s.duration.toMilliseconds.text ++ "\n"

def changedJson (changed : List Text) : Json := if changed.isEmpty then .null else .strings changed

def broadcast (s : WatchSession) (type : Text) (data : Json) : WatchSession :=
  { s with hub := s.hub.broadcast ⟨type, s.console.now, data⟩ }

def printDiagnostics (c : Console) (ds : List Diagnostic) : Console :=
  { c with errors := c.errors ++ ds.flatMap fun d => d.render ++ [10] }

def rebuild (s : WatchSession) (changed : List Text) : WatchSession :=
  let s := s.broadcast "build.started" (.object [("changed", changedJson changed), ("root", .string s.root)])
  let (result, pipeline) := s.pipeline.build false s.root
  let base : BuildSummary := { root := s.root, backend := s.config.build.backend, changed }
  let (summary, console) :=
    match result with
    | .error _ => (failure base, s.console)
    | .ok r => (success base r, printDiagnostics s.console r.diagnostics)
  let status := s.status.record s.console.now summary
  let s := { s with pipeline, status, console }
  let s := s.broadcast "build.finished" status.last.toJson
  { s with console := { s.console with output := s.console.output ++ summaryLine status.last } }

/-- Takes the disk as it is after an event, and builds again if units became invalid. -/
def receive (s : WatchSession) (disk : Disk) (e : FileEvent) : WatchSession :=
  let state := s.pipeline.state
  let world := { state.world with disk }
  let (notice, watcher, workspace) := s.watcher.notice state.workspace disk e
  let s := { s with watcher, pipeline := { s.pipeline with state := ⟨workspace, world⟩ } }
  match notice with
  | none => s
  | some n => s.rebuild [n.path]

def disk (s : WatchSession) : Disk := s.pipeline.state.world.disk

def server (s : WatchSession) : HealthServer :=
  let checks : Dictionary HealthFinding :=
    match s.pipeline.output with
    | .files root => [("output", .ofOutputRoot s.disk root)]
    | .objects _ => []
  { version := Config.version
    checks
    status := some s.status
    metrics := some s.pipeline.metrics.text
    hasEvents := true
    isReady := true }

def finish (s : WatchSession) : Console := { s.console with storage := s.pipeline.state.world }

end WatchSession

namespace Shell

def watch (i : Invocation) (root : Text) : Shell WatchSession := do
  let (config, p) ← setup i
  let d := p.state.world.disk
  let paths := (((p.state.workspace.project? 0).map fun x => x.sourcePaths ++ x.libraryPaths)).getD []
  let watcher ← lift .watch (Watcher.ofPaths d paths config.build.excludes)
  if i.isOn "store" then throw (.database (Database.connect config.graph.uri))
  let session : WatchSession := { root, config, pipeline := p, watcher, console := ← get }
  return session.rebuild []

end Shell

inductive CommandOutcome where
  | ended (code : Nat) (console : Console)
  | watching (session : WatchSession)

namespace CommandOutcome

def ofShell {α : Type} (c : Console) (s : Shell α) (next : α → Console → CommandOutcome) : CommandOutcome :=
  match s.run.run c with
  | (.ok x, c) => next x c
  | (.error e, c) => .ended 1 { c with errors := c.errors ++ "Error: " ++ e.message ++ "\n" }

def ofUnit (c : Console) (s : Shell Unit) : CommandOutcome := ofShell c s fun _ c => .ended 0 c

def dispatch (c : Console) (command : Command) (i : Invocation) : CommandOutcome :=
  let root := i.arguments.headD []
  match command.id with
  | .root | .completion | .script _ => ofUnit c (Shell.print command.helpText)
  | .complete => ofUnit c (Shell.complete command.isAlias i.arguments)
  | .build => ofUnit c (Shell.build i root)
  | .stubs => ofUnit c (Shell.stubs i)
  | .graph => ofUnit c (Shell.graph i root)
  | .watch => ofShell c (Shell.watch i root) fun session _ => .watching session
  | .backends => ofUnit c Shell.backends
  | .help => ofUnit c (Shell.help i.arguments)

def refusal? (command : Command) (args : List Text) : Option CommandError :=
  match command.rule with
  | .any => none
  | .none => args.head?.map fun argument => .strayArgument argument command.path
  | .exactly n => if args.length == n then none else some (.argumentCount n args.length)
  | .atLeast n => if args.length < n then some (.fewArguments n args.length) else none

/-- Checks the arguments of a command and runs it. Help comes before everything else. -/
def invoke (c : Console) (command : Command) (args : List Text) : CommandOutcome :=
  match if command.takesFlags then Invocation.parse command.allFlags args else .ok { arguments := args } with
  | .error e => ofUnit c (throw (.flag e))
  | .ok i =>
    if i.isOn "help" then ofUnit c (Shell.print command.helpText)
    else if i.isOn "version" then ofUnit c (Shell.print ("kiln version " ++ Config.version ++ "\n"))
    else
      match if command.isRunnable then refusal? command i.arguments else none with
      | some e => ofUnit c (throw e)
      | none => dispatch c command i

def run (c : Console) (args : List Text) : CommandOutcome :=
  match Command.find args with
  | .ok (command, args) => invoke c command args
  | .error word =>
    let message := "Error: " ++ Command.unknownCommand word ++ "\nRun 'kiln --help' for usage.\n"
    .ended 1 { c with errors := c.errors ++ message }

/-- Starts the worker program, which takes the path of a configuration; it ends where its setup fails. -/
def startWorker (c : Console) (args : List Text) : CommandOutcome :=
  let fail (c : Console) (message : Text) : CommandOutcome :=
    .ended 1 { c with errors := c.errors ++ message ++ "\n" }
  match (Shell.loadConfig (args.headD [])).run.run c with
  | (.error e, c) => fail c ("config: " ++ e.message)
  | (.ok config, c) =>
    match Logger.ofNames config.log.level config.log.format with
    | .error e => fail c ("logger: " ++ e.message)
    | .ok _ =>
      match Tracer.start config.tracing.endpoint with
      | .error e => fail c ("tracing: " ++ e.message)
      | .ok _ => .ended 0 c

end CommandOutcome

end ScriptBuild
