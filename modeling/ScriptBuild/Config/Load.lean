import ScriptBuild.Config.Basic
import ScriptBuild.Setting.Decode
import ScriptBuild.Setting.Format

/-! Loading of a configuration from a file, the environment and the defaults. -/

namespace ScriptBuild

inductive ConfigError where
  | unsupported (extension : Text)
  | unreadable (cause : DiskError)
  | malformed (cause : SettingSyntaxError)
  | misfits (ms : List Misfit)

def ConfigError.message : ConfigError → Text
  | .unsupported extension => "reading config: Unsupported Config Type " ++ Text.quote extension
  | .unreadable cause => "reading config: " ++ cause.message
  | .malformed cause => "reading config: While parsing config: " ++ cause.message
  | .misfits ms => "unmarshalling config: decoding failed due to the following error(s):\n\n" ++
      Text.join "\n" (ms.map Misfit.message)

namespace Config

open ReadSetting

def texts (pairs : List (Text × Text)) : Setting := .table (pairs.map fun (key, value) => (key, .text value))

def defaultSettings : Dictionary Setting :=
  let d := Config.default
  [("build", .table [("project", .text d.build.project), ("backend", .text d.build.backend),
      ("output_root", .text d.build.outputRoot), ("jobs", .integer .word d.build.jobs),
      ("body_cache_size", .integer .word d.build.bodyCacheSize)]),
    ("extern", texts [("as_root", "")]),
    ("graph", texts [("uri", ""), ("username", ""), ("password", ""), ("database", "")]),
    ("artifacts", texts [("endpoint", ""), ("bucket", ""), ("access_key", ""), ("secret_key", "")]),
    ("temporal", texts [("host", d.temporal.host), ("namespace", d.temporal.namespace_),
      ("task_queue", d.temporal.taskQueue)]),
    ("tracing", .table [("endpoint", .text ""), ("sample_rate", .float d.tracing.sampleRate)]),
    ("log", texts [("level", d.log.level), ("format", d.log.format)]),
    ("server", .table [("listen", .text ""),
      ("shutdown_timeout", .integer .duration d.server.shutdownTimeout.nanoseconds)])]

def readBuild (s : Section) : ReadSetting BuildSection := do
  return {
    project := ← s.get "project" text
    backend := ← s.get "backend" text
    outputRoot := ← s.get "output_root" text
    sourcePaths := ← s.get "source_paths" ReadSetting.texts
    libraryPaths := ← s.get "library_paths" ReadSetting.texts
    excludes := ← s.get "excludes" ReadSetting.texts
    jobs := ← s.get "jobs" (integer "int")
    namespaces := ← s.get "namespaces" textTable
    bodyCacheSize := ← s.get "body_cache_size" (integer "int")
    backends := ← s.get "backends" fun name => table "map[string]map[string]string" textTable name [] }

def readRule (name : Text) (s : Setting) : ReadSetting RuleSpec := do
  let s ← sectionOf name s
  return {
    scope := ← s.get "scope" text
    className := ← s.get "class" text
    member := ← s.get "member" text
    description := ← s.get "description" text }

def readStubs (s : Section) : ReadSetting StubOptions := do
  return {
    root := ← s.get "as_root" text
    externals := ← s.get "external" ReadSetting.texts
    flattened := ← s.get "class_to_function" ReadSetting.texts
    classExcludes := ← s.get "class_exclude" ReadSetting.texts
    fieldExcludes := ← s.get "field_exclude" ReadSetting.texts
    memberExcludes := ← s.get "exclude" ReadSetting.texts
    rules := ← s.get "exclude_rules" (list readRule) }

def readGraph (s : Section) : ReadSetting GraphSection := do
  return {
    uri := ← s.get "uri" text
    username := ← s.get "username" text
    password := ← s.get "password" text
    database := ← s.get "database" text }

def readArtifacts (s : Section) : ReadSetting ObjectConfig := do
  return {
    endpoint := ← s.get "endpoint" text
    region := ← s.get "region" text
    accessKey := ← s.get "access_key" text
    secretKey := ← s.get "secret_key" text
    bucket := ← s.get "bucket" text
    lead := ← s.get "prefix" text
    useSsl := ← s.get "use_ssl" bool }

def readTemporal (s : Section) : ReadSetting TemporalSection := do
  return {
    host := ← s.get "host" text
    namespace_ := ← s.get "namespace" text
    taskQueue := ← s.get "task_queue" text }

def readTracing (s : Section) : ReadSetting TracingSection := do
  return {
    endpoint := ← s.get "endpoint" text
    sampleRate := ← s.get "sample_rate" float
    environment := ← s.get "environment" text }

def readLog (s : Section) : ReadSetting LogSection := do
  return { level := ← s.get "level" text, format := ← s.get "format" text }

def readServer (s : Section) : ReadSetting ServerSection := do
  return { listen := ← s.get "listen" text, shutdownTimeout := ← s.get "shutdown_timeout" duration }

def read (settings : Dictionary Setting) : ReadSetting Config := do
  let part (name : Text) : ReadSetting Section := sectionOf name ((settings.find? name).getD .null)
  return {
    build := ← readBuild (← part "build")
    stubs := ← readStubs (← part "extern")
    graph := ← readGraph (← part "graph")
    artifacts := ← readArtifacts (← part "artifacts")
    temporal := ← readTemporal (← part "temporal")
    tracing := ← readTracing (← part "tracing")
    log := ← readLog (← part "log")
    server := ← readServer (← part "server") }

def readFile (d : Disk) (environment : Dictionary Text) (path : Text) : Except ConfigError (Dictionary Setting) :=
  let extension := (Path.ext path).drop 1
  match SettingFormat.ofExtension? extension with
  | none => .error (.unsupported extension)
  | some format =>
    match d.read path with
    | .error e => .error (.unreadable e)
    | .ok content => (format.parse environment content).mapError .malformed

def load (d : Disk) (environment : Dictionary Text) (path : Text) : Except ConfigError Config := do
  let file ← if path.isEmpty then pure [] else readFile d environment path
  let sources : SettingSources := { lead := "KILN", environment, file, defaults := defaultSettings }
  let (config, misfits) := (read sources.resolve).run []
  if misfits.isEmpty then return config else throw (.misfits misfits)

end Config

end ScriptBuild
