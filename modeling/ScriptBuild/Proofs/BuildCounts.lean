import ScriptBuild.Build.Pipeline
import ScriptBuild.Proofs.BackendBuilds
import ScriptBuild.Proofs.PlanCoverage
import ScriptBuild.Proofs.PlanGraphs

/-! The metrics of a pipeline against the results of its builds. -/

namespace ScriptBuild

open LinkOrder Relation

namespace Workspace

variable {w later : Workspace} {d : Disk} {p : ProjectId} {root : UnitId} {t : Traversal UnitId}

theorem Reaches.isCurrent (reaches : w.Reaches d p [root] t later) (emitted : List UnitId) :
    later.IsCurrent ⟨root, t.done.reverse, emitted⟩ := by
  refine ⟨fun u planned => (reaches.complete u (List.mem_reverse.mp planned)).2, fun u planned v target => ?_⟩
  exact List.mem_reverse.mpr (reaches.closed u (List.mem_reverse.mp planned) v target)

/-- There is a warning about a cycle if and only if there is one among the units that were reached. -/
theorem Reaches.ofKind_cycle_ne_nil_iff (reaches : w.Reaches d p [root] t later) :
    Diagnostic.ofKind .cycle (t.events.reverse.flatMap later.eventDiagnostics) ≠ [] ↔
      ∃ u ∈ t.done.reverse, TransGen later.DependsOn u u := by
  have none := reaches.order.dropped_eq_nil_iff
  rw [ofKind_cycle_events reaches.state.wellFormed, List.filterMap_reverse, ne_eq, List.map_eq_nil_iff]
  rw [show (t.events.filterMap Event.edge?).reverse = t.dropped.reverse from rfl, none]
  push Not
  exact Iff.rfl

/-- The search of a graph finds cycles, and one if there is any. If no two units of a plan share a node, a cycle is
found in its graph if and only if the plan comes with a warning about one. -/
theorem cycles_agree :
    (∀ g : UnitGraph, g.JoinsUnits → (g.cycles ≠ [] ↔ ∃ x, TransGen g.Imports x x) ∧
      ∀ c ∈ g.cycles, IsCycle g.Imports c) ∧
    ∀ {σ : Type} {diskOf : σ → Disk} {usable : σ → Prop} {projects : List ProjectConfig} {s : BuildState σ}
      {p : ProjectId} {root : UnitId}, (∀ c ∈ projects, c.Rooted) →
      (∀ world, usable world → ∀ path, (diskOf world).isHeld path = false) →
      BuildHistory diskOf usable projects s → s.workspace.IsMember p root →
      ∃ plan ds later, s.workspace.plan (diskOf s.world) false root = (some (plan, ds), later) ∧
        ((plan.reachable.map later.nodeId).Nodup → ∀ d, (later.analyze d plan).1.JoinsUnits ∧
          ((later.analyze d plan).1.stats.cycles ≠ [] ↔ Diagnostic.ofKind .cycle ds ≠ [])) := by
  refine ⟨fun g joined => ⟨joined.cycles_ne_nil_iff, joined.isCycle⟩, ?_⟩
  intro σ diskOf usable projects s p root rooted free history member
  have state := history.isSound rooted free
  have sound := state.workspace
  have roots : ∀ r ∈ [root], s.workspace.IsMember p r := by simpa using member
  obtain ⟨t, later, reaches, _⟩ := exists_reaches sound.wellFormed sound.described sound.ready
    (state.projects.symm ▸ rooted) (free s.world state.world) roots (fun _ => True) trivial fun _ _ _ => trivial
  refine ⟨_, _, later, reaches.plan_eq, fun distinct d => ?_⟩
  have current := reaches.isCurrent (t.done.reverse.filter fun id => (later.unit? id).any (·.isEmittable))
  have joined := current.joinsUnits_analyze d
  refine ⟨joined, joined.cycles_ne_nil_iff.trans ?_⟩
  rw [current.exists_transGen_imports_iff distinct, reaches.ofKind_cycle_ne_nil_iff]

/-- Two files that import each other are planned with a warning, and the graph of the plan has a cycle. -/
theorem cycles_mutualUnits : ∃ plan ds later, mutualUnits.plan mutualFiles false 0 = (some (plan, ds), later) ∧
    plan.reachable = [1, 0] ∧ (later.analyze mutualFiles plan).1.stats.cycles ≠ [] := by
  have history : BuildHistory (fun disk : Disk => disk) (· = mutualFiles) [mutualProject] ⟨mutualUnits, mutualFiles⟩ :=
    .request (s := ⟨fresh [mutualProject] {}, mutualFiles⟩) 0 "/src/A.kn" (.start rfl rfl)
  obtain ⟨plan, ds, later, planned, agree⟩ := cycles_agree.2 rooted_mutualProject (fun _ same _ => same ▸ rfl) history
    ⟨_, mutualUnits_unit?, rfl⟩
  have checked : (mutualUnits.plan mutualFiles false 0).1.any fun x => x.1.reachable = [1, 0] ∧
      (x.1.reachable.map (mutualUnits.plan mutualFiles false 0).2.nodeId).Nodup ∧ Diagnostic.ofKind .cycle x.2 ≠ [] := by
    simp only [Workspace.plan, reachable, LinkOrder.traverse, visitRoots, visit_eq_visitBy]
    decide +kernel
  rw [planned] at checked
  obtain ⟨order, distinct, warned⟩ := of_decide_eq_true checked
  exact ⟨plan, ds, later, planned, order, (agree distinct _).2.mpr warned⟩

end Workspace

open List

def tally (sizes : List Int) : Int := sizes.foldl (· + ·) 0

@[simp] theorem tally_nil : tally [] = 0 := rfl

@[simp] theorem tally_cons (n : Int) (l : List Int) : tally (n :: l) = n + tally l := by
  rw [tally, foldl_cons, Int.add_comm, foldl_assoc]
  rfl

@[simp] theorem tally_append (l r : List Int) : tally (l ++ r) = tally l + tally r := by
  induction l with
  | nil => simp
  | cons n l ih => rw [cons_append, tally_cons, tally_cons, ih, Int.add_assoc]

namespace BuildResult

/-- What every result of a build has: one outcome for each unit of the plan, and a report that lists them. -/
structure IsComplete (r : BuildResult) : Prop where
  outcomes : r.outcomes.length = r.plan.emitted.length
  written : ∀ o ∈ r.outcomes, o.artifact.isSome → o.isWriteFailure = false
  units : ∃ w fingerprints, r.report.units = r.outcomes.map (Builder.unitReport w fingerprints)

theorem totalBytes_report {r : BuildResult} (complete : r.IsComplete) :
    r.report.totalBytes = tally (r.artifacts.map fun a => (a.bytes : Int)) := by
  obtain ⟨w, fingerprints, units⟩ := complete.units
  rw [BuildReport.totalBytes, ← tally, BuildReport.written, units, artifacts]
  refine congrArg tally ?_
  induction r.outcomes with
  | nil => rfl
  | cons o outcomes ih =>
    cases made : o.artifact <;> simp_all [Builder.unitReport]

end BuildResult

namespace Builder

variable {σ : Type} (b : Builder σ)

theorem isWriteFailure_emitUnit (s : BuildState σ) (id : UnitId) (made : (b.emitUnit s id).1.artifact.isSome) :
    (b.emitUnit s id).1.isWriteFailure = false := by
  revert made
  unfold emitUnit writeArtifact
  dsimp only
  split
  · split
    · simp
    · split
      · simp
      · split <;> simp
  · simp

theorem isComplete_execute (s : BuildState σ) (root : UnitId) (plan : BuildPlan) (ds : List Diagnostic) :
    (b.execute s root plan ds).1.IsComplete := by
  have each (ids : List UnitId) (s : BuildState σ) : (b.emitUnits s ids).1.length = ids.length ∧
      ∀ o ∈ (b.emitUnits s ids).1, o.artifact.isSome → o.isWriteFailure = false := by
    induction ids generalizing s with
    | nil => exact ⟨rfl, by simp [emitUnits]⟩
    | cons id ids ih =>
      have rest := ih (b.emitUnit s id).2
      exact ⟨congrArg (· + 1) rest.1, forall_mem_cons.mpr ⟨b.isWriteFailure_emitUnit s id, rest.2⟩⟩
  exact ⟨(each _ _).1, (each _ _).2, _, _, rfl⟩

end Builder

namespace BuildMetrics

theorem artifactBytes_eq (m : BuildMetrics) : m.artifactBytes = tally m.artifactSizes := rfl

theorem foldl_recordOutcome {outcomes : List UnitOutcome} (m : BuildMetrics)
    (written : ∀ o ∈ outcomes, o.artifact.isSome → o.isWriteFailure = false) :
    let made := outcomes.filterMap (·.artifact)
    let later := outcomes.foldl recordOutcome m
    later.unitsEmitted + made.countP (·.bytes = 0) = m.unitsEmitted + made.length ∧
    later.unitsSkipped + later.writeFailures + made.length =
      m.unitsSkipped + m.writeFailures + outcomes.length + made.countP (·.bytes = 0) ∧
    later.artifactBytes = m.artifactBytes + tally (made.map fun a => (a.bytes : Int)) := by
  induction outcomes generalizing m with
  | nil => simp
  | cons o outcomes ih =>
    obtain ⟨first, rest⟩ := forall_mem_cons.mp written
    have later := ih (m.recordOutcome o) rest
    dsimp only at later ⊢
    rw [foldl_cons, filterMap_cons]
    revert later
    generalize outcomes.foldl recordOutcome (m.recordOutcome o) = last
    cases made : o.artifact with
    | none =>
      cases failed : o.isWriteFailure <;> simp [recordOutcome, recordUnit, artifactBytes_eq, made, failed] <;> omega
    | some a =>
      have fine := first (by rw [made]; rfl)
      by_cases empty : a.bytes = 0 <;> simp [recordOutcome, recordUnit, artifactBytes_eq, made, fine, empty] <;> omega

/-- The counters are what the results add up to, with so many artifacts counted as units that were skipped. -/
structure Counts (m : BuildMetrics) (results : List BuildResult) (empty : Nat) : Prop where
  emitted : m.unitsEmitted + empty = (results.flatMap (·.artifacts)).length
  missing : m.unitsSkipped + m.writeFailures + (results.flatMap (·.artifacts)).length =
    (results.flatMap (·.plan.emitted)).length + empty
  bytes : m.artifactBytes = tally (results.map (·.report.totalBytes))

def empties (results : List BuildResult) : Nat := (results.flatMap (·.artifacts)).countP (·.bytes = 0)

theorem Counts.recordResult {m : BuildMetrics} {r : BuildResult} {results : List BuildResult}
    (counts : m.Counts results (empties results)) (complete : r.IsComplete) :
    (m.recordResult r).Counts (results ++ [r]) (empties (results ++ [r])) := by
  obtain ⟨emitted, missing, bytes⟩ := foldl_recordOutcome m complete.written
  rw [← BuildResult.artifacts] at emitted missing bytes
  obtain ⟨before, without, sizes⟩ := counts
  have size := complete.outcomes
  simp only [empties] at before without
  refine ⟨?_, ?_, ?_⟩
  · show (r.outcomes.foldl recordOutcome m).unitsEmitted + _ = _
    simp only [empties, flatMap_append, flatMap_singleton, countP_append, length_append]
    omega
  · show (r.outcomes.foldl recordOutcome m).unitsSkipped + (r.outcomes.foldl recordOutcome m).writeFailures + _ = _
    simp only [empties, flatMap_append, flatMap_singleton, countP_append, length_append]
    omega
  · rw [map_append, tally_append, map_singleton, BuildResult.totalBytes_report complete, ← sizes]
    exact bytes.trans (by simp)

end BuildMetrics

namespace Pipeline

/-- The pipelines that builds lead to, with the results of these builds; in between, files and workspace may change. -/
inductive Run : Pipeline → List BuildResult → Prop
  | start (settings : Settings) (output : Output) (state : BuildState Storage) : Run { settings, output, state } []
  | change {p : Pipeline} {results : List BuildResult} (run : Run p results) (state : BuildState Storage) :
    Run { p with state } results
  | build {p : Pipeline} {results : List BuildResult} (run : Run p results) (canceled : Bool) (root : Text) :
    Run (p.build canceled root).2 (results ++ (p.build canceled root).1.toOption.toList)

variable {p : Pipeline} {results : List BuildResult}

theorem Run.counts (run : p.Run results) : p.metrics.Counts results (BuildMetrics.empties results) := by
  induction run with
  | start => exact ⟨rfl, rfl, rfl⟩
  | change _ _ ih => exact ih
  | @build p results _ canceled root ih =>
    unfold Pipeline.build
    cases built : (p.builder canceled).build p.state root with
    | mk answer state =>
      cases answer with
      | error e => exact (append_nil results).symm ▸ ih
      | ok r =>
        obtain ⟨_, _, _, _, _, _, _, _, _, _, run⟩ := Builder.build_eq_ok_iff.mp built
        obtain rfl : _ = r := congrArg Prod.fst run
        exact ih.recordResult (Builder.isComplete_execute _ _ _ _ _)

theorem counts_iff (run : p.Run results) :
    (p.metrics.Counts results 0 ↔ ∀ r ∈ results, ∀ a ∈ r.artifacts, a.bytes ≠ 0) ∧
    p.metrics.Counts results ((results.flatMap (·.artifacts)).countP (·.bytes = 0)) := by
  have counts := run.counts
  have none : BuildMetrics.empties results = 0 ↔ ∀ r ∈ results, ∀ a ∈ r.artifacts, a.bytes ≠ 0 := by
    simp [BuildMetrics.empties, countP_eq_zero]
    grind
  refine ⟨⟨fun agrees => none.mp ?_, fun full => none.mpr full ▸ counts⟩, counts⟩
  have first := counts.emitted
  have second := agrees.emitted
  omega

section SingleFile

def oneFile (content : Text) : Disk := { entries := [("/src/A.kn", { content })] }

/-- A pipeline for one file, without any options. -/
def ofContent (content : Text) : Pipeline :=
  { settings := bucketBuilder.settings
    output := .objects ⟨"bucket", []⟩
    state := freshState Workspace.mutualProject (oneFile content) }

theorem exists_run_ofContent {content : Text} {size : Nat}
    (given : content = "var x" ∧ size = 3 ∨ content = [] ∧ size = 0) :
    ∃ r, ((ofContent content).build false "/src/A.kn").2.Run [r] ∧ r.artifacts.map (·.bytes) = [size] := by
  have checked : ((ofContent content).build false "/src/A.kn").1.toOption.any fun r =>
      r.artifacts.map (·.bytes) = [size] := by
    simp only [build, Builder.build, Builder.buildWith, Builder.buildFrom, Workspace.plan, Workspace.reachable,
      LinkOrder.traverse, LinkOrder.visitRoots, LinkOrder.visit_eq_visitBy]
    rcases given with ⟨rfl, rfl⟩ | ⟨rfl, rfl⟩ <;> decide +kernel
  obtain ⟨r, answer, sizes⟩ := (Option.any_eq_true _ _).mp checked
  have start : (ofContent content).Run [] := .start _ _ _
  have run := start.build false "/src/A.kn"
  rw [answer] at run
  exact ⟨r, run, of_decide_eq_true sizes⟩

theorem counts_variable :
    ∃ r, ((ofContent "var x").build false "/src/A.kn").2.metrics.Counts [r] 0 ∧ r.artifacts.length = 1 := by
  obtain ⟨r, run, bytes⟩ := exists_run_ofContent (.inl ⟨rfl, rfl⟩)
  obtain ⟨a, made, size⟩ := map_eq_singleton_iff.mp bytes
  refine ⟨r, (counts_iff run).1.mpr ?_, by rw [made]; rfl⟩
  simp only [mem_singleton, forall_eq, made, size]
  decide

/-- An empty file has an empty artifact. -/
theorem not_counts_empty : ∃ r, ((ofContent []).build false "/src/A.kn").2.Run [r] ∧ r.artifacts.length = 1 ∧
    ((ofContent []).build false "/src/A.kn").2.metrics.unitsEmitted = 0 := by
  obtain ⟨r, run, bytes⟩ := exists_run_ofContent (.inr ⟨rfl, rfl⟩)
  obtain ⟨a, made, size⟩ := map_eq_singleton_iff.mp bytes
  have emitted := run.counts.emitted
  refine ⟨r, run, by rw [made]; rfl, ?_⟩
  simpa [BuildMetrics.empties, made, size] using emitted

end SingleFile

end Pipeline

end ScriptBuild
