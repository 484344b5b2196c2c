import ScriptBuild.Build.Run

/-! A pipeline: one configured project with a backend, a workspace and a place for artifacts. -/

namespace ScriptBuild

structure BuildMetrics where
  builds : Nat := 0
  failures : Nat := 0
  buildDurations : List Duration := []
  unitsEmitted : Nat := 0
  unitsSkipped : Nat := 0
  writeFailures : Nat := 0
  unitDurations : List Duration := []
  artifactSizes : List Int := []
  invalidations : Nat := 0
  stubRuns : Nat := 0
  stubEntries : List Int := []
  stubExclusions : List Int := []
  cacheEntries : Int := 0
  /-- Hits and all requests of the last record that had any. -/
  cacheHits : Option (Int × Int) := none

namespace BuildMetrics

def artifactBytes (m : BuildMetrics) : Int := m.artifactSizes.foldl (· + ·) 0

def recordBuild (m : BuildMetrics) (duration : Duration) (success : Bool) : BuildMetrics :=
  { m with
    builds := m.builds + 1
    buildDurations := m.buildDurations ++ [duration]
    failures := if success then m.failures else m.failures + 1 }

/-- Counts a unit; one without bytes was skipped. -/
def recordUnit (m : BuildMetrics) (duration : Duration) (bytes : Int) (failed : Bool) : BuildMetrics :=
  let m := { m with unitDurations := m.unitDurations ++ [duration] }
  if failed then { m with writeFailures := m.writeFailures + 1 }
  else if bytes == 0 then { m with unitsSkipped := m.unitsSkipped + 1 }
  else { m with unitsEmitted := m.unitsEmitted + 1, artifactSizes := m.artifactSizes ++ [bytes] }

def recordCache (m : BuildMetrics) (c : CacheCounts) : BuildMetrics :=
  { m with
    cacheEntries := c.entries
    cacheHits := if c.requests > 0 then some (c.hits, c.requests) else m.cacheHits }

def recordStubs (m : BuildMetrics) (entries excluded : Int) : BuildMetrics :=
  { m with
    stubRuns := m.stubRuns + 1
    stubEntries := m.stubEntries ++ [entries]
    stubExclusions := m.stubExclusions ++ [excluded] }

def recordOutcome (m : BuildMetrics) (o : UnitOutcome) : BuildMetrics :=
  m.recordUnit ⟨0⟩ ((o.artifact.map (·.bytes)).getD 0 : Nat) o.isWriteFailure

def recordResult (m : BuildMetrics) (r : BuildResult) : BuildMetrics :=
  ((r.outcomes.foldl recordOutcome m).recordCache r.report.cache).recordBuild r.report.duration r.isSuccess

end BuildMetrics

structure BuildConfig where
  project : Text := []
  backend : Text := "js"
  outputRoot : Text := []
  sourcePaths : List Text := []
  libraryPaths : List Text := []
  excludes : List Text := []
  namespaces : Dictionary Text := []
  bodyCacheSize : Int := 0
  options : Dictionary Text := []
  artifacts : ObjectConfig := {}

inductive PipelineError where
  | backend (name : Text)
  | settings (cause : SettingsError)
  | excludes (cause : GlobError)
  | artifacts (cause : ObjectConfigError)

def PipelineError.message : PipelineError → Text
  | .backend name => "no backend named " ++ Text.quote name
  | .settings cause => "backend settings: " ++ cause.message
  | .excludes cause => "build excludes: " ++ PathGlob.errorMessage cause
  | .artifacts cause => "artifact store: " ++ cause.message

structure Pipeline where
  settings : Settings
  output : Output
  state : BuildState Storage
  metrics : BuildMetrics := {}

namespace Pipeline

/-- The writer's place: a bucket if one is named, else the output root. -/
def outputOf (c : BuildConfig) (s : Settings) : Except PipelineError Output :=
  if c.artifacts.bucket.isEmpty then .ok (.files (Path.clean s.outputRoot))
  else
    match ObjectTarget.ofConfig c.artifacts with
    | .error e => .error (.artifacts e)
    | .ok target => .ok (.objects target)

def workspaceOf (c : BuildConfig) (b : Backend) (d : Disk) (excludes : List PathGlob) : Workspace :=
  { projects := [{
      name := if c.project.isEmpty then "kiln" else c.project
      sourcePaths := d.roots c.sourcePaths
      libraryPaths := d.roots c.libraryPaths
      namespaces := c.namespaces
      excludes
      extensions := b.extensions }]
    bodies := .ofSize c.bodyCacheSize }

def ofConfig (c : BuildConfig) (storage : Storage) : Except PipelineError Pipeline := do
  let some backend := Backend.ofName? c.backend | .error (.backend c.backend)
  let settings ← (Settings.ofOptions backend c.outputRoot c.options).mapError PipelineError.settings
  let excludes ← (PathGlob.ofTexts c.excludes).mapError PipelineError.excludes
  let output ← outputOf c settings
  return { settings, output, state := ⟨workspaceOf c backend storage.disk excludes, storage⟩ }

def builder (p : Pipeline) (canceled : Bool) : Builder Storage :=
  { project := 0
    settings := p.settings
    writer := p.output.writer canceled
    diskOf := Storage.disk
    canceled }

def build (p : Pipeline) (canceled : Bool) (root : Text) : Except BuildError BuildResult × Pipeline :=
  match (p.builder canceled).build p.state root with
  | (.error e, state) => (.error e, { p with state })
  | (.ok result, state) => (.ok result, { p with state, metrics := p.metrics.recordResult result })

def projectName (p : Pipeline) : Text := ((p.state.workspace.project? 0).map (·.name)).getD []

end Pipeline

end ScriptBuild
