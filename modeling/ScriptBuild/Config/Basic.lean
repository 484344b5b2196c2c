import ScriptBuild.Build.Pipeline
import ScriptBuild.Log.Record
import ScriptBuild.Stub.Config

/-! The configuration of the program, its defaults, and what in it is doubtful. -/

namespace ScriptBuild

structure BuildSection where
  project : Text := []
  backend : Text := []
  outputRoot : Text := []
  sourcePaths : List Text := []
  libraryPaths : List Text := []
  excludes : List Text := []
  jobs : Int := 0
  namespaces : Dictionary Text := []
  bodyCacheSize : Int := 0
  backends : Dictionary (Dictionary Text) := []

structure GraphSection where
  uri : Text := []
  username : Text := []
  password : Text := []
  database : Text := []

structure TemporalSection where
  host : Text := []
  namespace_ : Text := []
  taskQueue : Text := []

structure TracingSection where
  endpoint : Text := []
  sampleRate : Float := 0.0
  environment : Text := []

structure LogSection where
  level : Text := []
  format : Text := []

structure ServerSection where
  listen : Text := []
  shutdownTimeout : Duration := ⟨0⟩

structure Config where
  build : BuildSection := {}
  stubs : StubOptions := { root := [] }
  graph : GraphSection := {}
  artifacts : ObjectConfig := {}
  temporal : TemporalSection := {}
  tracing : TracingSection := {}
  log : LogSection := {}
  server : ServerSection := {}

namespace Config

def version : Text := "0.1.0"

def default : Config :=
  { build := { project := "kiln", backend := "js", outputRoot := "out", bodyCacheSize := 4096 }
    temporal := { host := "localhost:7233", namespace_ := "default", taskQueue := "kiln" }
    tracing := { sampleRate := 1.0 }
    log := { level := "info", format := "text" }
    server := { shutdownTimeout := ⟨30000000000⟩ } }

def oddWarning (name : Text) (values : List Text) : List Text :=
  if values.length % 2 == 1 then ["extern " ++ name ++ " has an odd number of values"] else []

def buildWarnings (b : BuildSection) : List Text :=
  (if b.jobs < 0 then ["build jobs " ++ Text.ofInt b.jobs ++ " is negative; using GOMAXPROCS"] else []) ++
  (if b.bodyCacheSize < 0 then ["build body_cache_size " ++ Text.ofInt b.bodyCacheSize ++ " is negative"] else [])

def stubWarnings (s : StubOptions) : List Text :=
  (if !s.externals.isEmpty && s.root.isEmpty then
    [Text.ofString "extern external is set but as_root is empty"] else []) ++
  oddWarning "field_exclude" s.fieldExcludes ++ oddWarning "exclude" s.memberExcludes

def storeWarnings (a : ObjectConfig) (g : GraphSection) : List Text :=
  (if !a.bucket.isEmpty && a.endpoint.isEmpty then
    ["artifacts bucket '" ++ a.bucket ++ "' is configured but endpoint is empty"] else []) ++
  (if !g.uri.isEmpty && g.username.isEmpty then [Text.ofString "graph uri is set but username is empty"] else [])

def observationWarnings (t : TracingSection) (l : LogSection) : List Text :=
  (if t.sampleRate < 0.0 || t.sampleRate > 1.0 then
    ["tracing sample_rate " ++ FloatText.fixed 2 t.sampleRate ++ " is outside [0.0, 1.0]"] else []) ++
  match LogLevel.ofName l.level with
  | .ok _ => []
  | .error e => ["log level: " ++ e.message]

def warnings (c : Config) : List Text :=
  Text.sort (buildWarnings c.build ++ stubWarnings c.stubs ++ storeWarnings c.artifacts c.graph ++
    observationWarnings c.tracing c.log)

def pipelineConfig (c : Config) : BuildConfig :=
  { project := c.build.project
    backend := c.build.backend
    outputRoot := c.build.outputRoot
    sourcePaths := c.build.sourcePaths
    libraryPaths := c.build.libraryPaths
    excludes := c.build.excludes
    namespaces := c.build.namespaces.sorted
    bodyCacheSize := c.build.bodyCacheSize
    options := ((Backend.ofName? c.build.backend).bind fun b => c.build.backends.find? b.name).getD []
    artifacts := c.artifacts }

def ruleJson (r : RuleSpec) : Json :=
  .texts [("scope", r.scope), ("class", r.className), ("member", r.member), ("description", r.description)]

def floatJson (x : Float) : Json :=
  match FloatText.special? x with
  | some s => .string s
  | none => .number (FloatText.general x)

def buildJson (b : BuildSection) : Json :=
  .object [("project", .string b.project), ("backend", .string b.backend), ("output_root", .string b.outputRoot),
    ("source_paths", .strings b.sourcePaths), ("library_paths", .strings b.libraryPaths),
    ("excludes", .strings b.excludes), ("jobs", .int b.jobs),
    ("namespaces", .array (b.namespaces.sorted.map fun (uri, package) => .strings [uri, package])),
    ("body_cache_size", .int b.bodyCacheSize),
    ("backends", .object (b.backends.sorted.map fun (name, options) => (name, .texts options.sorted)))]

def stubsJson (s : StubOptions) : Json :=
  .object [("as_root", .string s.root), ("external", .strings s.externals),
    ("class_to_function", .strings s.flattened), ("class_exclude", .strings s.classExcludes),
    ("field_exclude", .strings s.fieldExcludes), ("exclude", .strings s.memberExcludes),
    ("exclude_rules", .array (s.rules.map ruleJson))]

def artifactsJson (a : ObjectConfig) : Json :=
  .object [("endpoint", .string a.endpoint), ("region", .string a.region), ("access_key", .string a.accessKey),
    ("secret_key", .string a.secretKey), ("bucket", .string a.bucket), ("prefix", .string a.lead),
    ("use_ssl", .bool a.useSsl), ("enabled", .bool !a.bucket.isEmpty)]

def TracingSection.environmentName (t : TracingSection) : Text :=
  if t.environment.isEmpty then "development" else t.environment

def tracingJson (t : TracingSection) : Json :=
  .object [("endpoint", .string t.endpoint), ("sample_rate", floatJson t.sampleRate),
    ("environment", .string (TracingSection.environmentName t)), ("service", .string "kiln"),
    ("version", .string version)]

def toJson (c : Config) : Json :=
  .object [("build", buildJson c.build), ("extern", stubsJson c.stubs),
    ("graph", .texts [("uri", c.graph.uri), ("username", c.graph.username), ("password", c.graph.password),
      ("database", c.graph.database)]),
    ("artifacts", artifactsJson c.artifacts),
    ("temporal", .texts [("host", c.temporal.host), ("namespace", c.temporal.namespace_),
      ("task_queue", c.temporal.taskQueue)]),
    ("tracing", tracingJson c.tracing),
    ("log", .texts [("level", c.log.level), ("format", c.log.format)]),
    ("server", .object [("listen", .string c.server.listen),
      ("shutdown_timeout_ns", .int c.server.shutdownTimeout.nanoseconds)]),
    ("warnings", .strings c.warnings)]

end Config

end ScriptBuild
