import ScriptBuild.Build.Pipeline

/-! The text of what a pipeline counts. -/

namespace ScriptBuild.Metrics

structure Title where
  name : Text
  help : Text := []
  labels : Dictionary Text := []

structure Histogram where
  buckets : List Float
  /-- For every bucket, the number of observations up to its bound. -/
  counts : List Nat
  sum : Float := 0
  count : Nat := 0

namespace Histogram

def defaultBuckets : List Float := [0.0005, 0.001, 0.005, 0.01, 0.025, 0.05, 0.1, 0.25, 0.5, 1, 2.5, 5, 10]

def ofBuckets (buckets : List Float) : Histogram := { buckets, counts := buckets.map fun _ => 0 }

def observe (h : Histogram) (x : Float) : Histogram :=
  { h with
    counts := (h.buckets.zip h.counts).map fun (bound, n) => if x ≤ bound then n + 1 else n
    sum := h.sum + x
    count := h.count + 1 }

end Histogram

structure Registry where
  counters : Dictionary (Title × Float) := []
  gauges : Dictionary (Title × Float) := []
  histograms : Dictionary (Title × Histogram) := []

namespace Registry

def addCounter (r : Registry) (title : Title) (x : Float) : Registry :=
  { r with counters := r.counters.insert title.name (title, x) }

def addGauge (r : Registry) (title : Title) (x : Float) : Registry :=
  { r with gauges := r.gauges.insert title.name (title, x) }

def addHistogram (r : Registry) (title : Title) (h : Histogram) : Registry :=
  { r with histograms := r.histograms.insert title.name (title, h) }

def change {α : Type} (d : Dictionary (Title × α)) (name : Text) (f : α → α) : Dictionary (Title × α) :=
  d.map fun (key, title, x) => if key == name then (key, title, f x) else (key, title, x)

def count (r : Registry) (name : Text) (x : Float) : Registry :=
  { r with counters := change r.counters name (· + x) }

def set (r : Registry) (name : Text) (x : Float) : Registry := { r with gauges := change r.gauges name fun _ => x }

def add (r : Registry) (name : Text) (x : Float) : Registry := { r with gauges := change r.gauges name (· + x) }

def observe (r : Registry) (name : Text) (x : Float) : Registry :=
  { r with histograms := change r.histograms name fun h => h.observe x }

end Registry

def labelText (label : Text × Text) : Text := label.1 ++ "=" ++ label.2.quote

def labelsText (labels : Dictionary Text) : Text :=
  if labels.isEmpty then [] else "\x7b" ++ Text.join "," (labels.sorted.map labelText) ++ "\x7d"

def headText (title : Title) (kind : Text) : Text :=
  "# HELP " ++ title.name ++ " " ++ title.help ++ "\n# TYPE " ++ title.name ++ " " ++ kind ++ "\n"

def sampleText (name : Text) (labels : Dictionary Text) (value : Text) : Text :=
  name ++ labelsText labels ++ " " ++ value ++ "\n"

def valueText (kind : Text) (measure : Title × Float) : Text :=
  headText measure.1 kind ++ sampleText measure.1.name measure.1.labels (FloatText.general measure.2)

def bucketText (title : Title) (bound : Text) (n : Nat) : Text :=
  sampleText (title.name ++ "_bucket") (title.labels.insert "le" bound) (Text.ofNat n)

def histogramText (measure : Title × Histogram) : Text :=
  let (title, h) := measure
  headText title "histogram" ++
    ((h.buckets.zip h.counts).flatMap fun (bound, n) => bucketText title (FloatText.general bound) n) ++
    bucketText title "+Inf" h.count ++
    sampleText (title.name ++ "_sum") title.labels (FloatText.general h.sum) ++
    sampleText (title.name ++ "_count") title.labels (Text.ofNat h.count)

def Registry.text (r : Registry) : Text :=
  (r.counters.sorted.flatMap fun (_, m) => valueText "counter" m) ++
    (r.gauges.sorted.flatMap fun (_, m) => valueText "gauge" m) ++
    (r.histograms.sorted.flatMap fun (_, m) => histogramText m)

end ScriptBuild.Metrics

namespace ScriptBuild

/-- Whole seconds and the rest are converted on their own. -/
def Duration.seconds (d : Duration) : Float :=
  Float.ofInt (d.nanoseconds.tdiv 1000000000) + Float.ofInt (d.nanoseconds.tmod 1000000000) / 1000000000

namespace BuildMetrics

open Metrics

def durations (ds : List Duration) : Histogram :=
  ds.foldl (fun h d => h.observe d.seconds) (.ofBuckets Histogram.defaultBuckets)

def hitRatio (m : BuildMetrics) : Float :=
  match m.cacheHits with
  | none => 0
  | some (hits, total) => Float.ofInt hits / Float.ofInt total

/-- Numbers added one after the other, each sum rounded. -/
def total (ns : List Int) : Float := ns.foldl (fun sum n => sum + Float.ofInt n) 0

def registry (m : BuildMetrics) : Registry :=
  let counters : List (Text × Text × Float) := [
    ("builds_total", "Total builds", Float.ofNat m.builds),
    ("build_failures_total", "Builds that reported errors", Float.ofNat m.failures),
    ("units_emitted_total", "Units written as artifacts", Float.ofNat m.unitsEmitted),
    ("units_skipped_total", "Units skipped because of errors", Float.ofNat m.unitsSkipped),
    ("artifact_bytes_total", "Bytes of artifacts written", total m.artifactSizes),
    ("write_failures_total", "Failed artifact writes", Float.ofNat m.writeFailures),
    ("invalidations_total", "Units invalidated by content changes", Float.ofNat m.invalidations),
    ("extern_runs_total", "Extern compilations", Float.ofNat m.stubRuns),
    ("extern_entries_total", "Declarations read from extern corpora", total m.stubEntries),
    ("extern_exclusions_total", "Declarations excluded by policy", total m.stubExclusions)]
  let title (name help : Text) : Title := { name := "kiln_" ++ name, help }
  let r : Registry := counters.foldl (fun r (name, help, x) => r.addCounter (title name help) x) {}
  let r := r.addGauge (title "active_workers" "Emission workers currently busy") 0
  let r := r.addGauge (title "body_cache_entries" "Parsed function bodies held in memory")
    (Float.ofInt m.cacheEntries)
  let r := r.addGauge (title "body_cache_hit_ratio" "Body cache hit ratio") m.hitRatio
  let r := r.addHistogram (title "build_duration_seconds" "Build duration") (durations m.buildDurations)
  r.addHistogram (title "unit_emit_duration_seconds" "Per-unit walk and write duration")
    (durations m.unitDurations)

def text (m : BuildMetrics) : Text := m.registry.text

end BuildMetrics

end ScriptBuild
