import ScriptBuild.Proofs.BuildSteps

/-! The outcome of a build in terms of paths. -/

namespace ScriptBuild

open List Option Workspace

variable {d : Disk} {w : Workspace} {p : ProjectId} {root : UnitId}

structure Emitted where
  artifact : Option (Text × Text × Nat)
  diagnostics : List Diagnostic

/-- What a build gives, with units by their paths. -/
structure BuildView where
  reachable : List Text
  emitted : List Text
  diagnostics : List Diagnostic
  artifacts : List (Text × Text × Nat)

def Artifact.view (w : Workspace) (a : Artifact) : Text × Text × Nat :=
  (w.unitPath a.unit, a.path, a.bytes)

def UnitOutcome.view (w : Workspace) (o : UnitOutcome) : Emitted :=
  ⟨o.artifact.map (·.view w), o.diagnostics⟩

def BuildResult.view (w : Workspace) (r : BuildResult) : BuildView :=
  ⟨r.plan.reachable.map w.unitPath, r.plan.emitted.map w.unitPath, r.diagnostics, r.artifacts.map (·.view w)⟩

namespace Builder

variable {σ : Type} {world : σ}

def outcome (b : Builder σ) (s : BuildState σ) (path : Text) : Except BuildError BuildView × σ :=
  ((b.build s path).1.map (·.view (b.build s path).2.workspace), (b.build s path).2.world)

def print (b : Builder σ) (c : ProjectConfig) (d : Disk) (path : Text) : Option Text × List Diagnostic :=
  let (file, ds) := c.source d path
  if Diagnostic.hasErrors ds then (none, [])
  else
    let (bodies, ds) := parseBodies file.emittedFunctions
    if Diagnostic.hasErrors ds then (none, ds)
    else
      let context : EmitContext :=
        { settings := b.settings
          file
          unitName := (c.describe path).map (·.name)
          qualify := c.qualify file
          bodies }
      (some (emitFile context).text, ds)

def store (b : Builder σ) (world : σ) (path name text : Text) (ds : List Diagnostic) : Emitted × σ :=
  let place := artifactPath b.settings.backend.subdir name b.settings.backend.extension
  match b.writer.write world place text with
  | (.ok (), world) => (⟨some (path, place, text.length), ds⟩, world)
  | (.error e, world) =>
    let failure := Diagnostic.error .failedAccess path 0 ("write " ++ place ++ ": " ++ e.message)
    (⟨none, ds ++ [failure]⟩, world)

def emitPath (b : Builder σ) (c : ProjectConfig) (world : σ) (path : Text) : Emitted × σ :=
  match b.print c (b.diskOf world) path with
  | (none, ds) => (⟨none, ds⟩, world)
  | (some text, ds) => b.store world path (((c.describe path).map (·.name)).getD []) text ds

def emitPaths (b : Builder σ) (c : ProjectConfig) (world : σ) : List Text → List Emitted × σ
  | [] => ([], world)
  | path :: paths =>
    let (first, world) := b.emitPath c world path
    let (rest, world) := b.emitPaths c world paths
    (first :: rest, world)

/-- The build of a path of a project from the files alone; `depth` bounds how far it looks. -/
def cleanFrom (b : Builder σ) (c : ProjectConfig) (depth : Nat) (world : σ) (root : Text) : BuildView × σ :=
  let d := b.diskOf world
  let t := c.traversal d depth root
  let reachable := t.done.reverse
  let emitted := reachable.filter c.isEmittable
  let (outcomes, world) := b.emitPaths c world emitted
  let diagnostics := t.events.reverse.flatMap (c.eventDiagnostics d) ++
    reachable.flatMap (fun path => (c.source d path).2) ++ outcomes.flatMap (·.diagnostics)
  (⟨reachable, emitted, diagnostics, outcomes.filterMap (·.artifact)⟩, world)

def clean (b : Builder σ) (projects : List ProjectConfig) (depth : Nat) (world : σ) (path : Text) :
    Except BuildError BuildView × σ :=
  let root := (b.diskOf world).absolute path
  match projects[b.project]? with
  | none => (.error (.rootNotInProject path), world)
  | some c =>
    if (c.describe root).isNone then (.error (.rootNotInProject path), world)
    else
      match b.writer.prepare world with
      | (.error e, world) => (.error (.write e), world)
      | (.ok (), world) =>
        let (view, world) := b.cleanFrom c depth world root
        (.ok view, world)

end Builder

namespace Workspace

variable {id : UnitId} {u : CompilationUnit} {r : SyntaxResult} {contents : Text → Prop}
  {projects : List ProjectConfig} {dirty : List Text} {cache : BodyCache}

section

variable (agree : w.BodiesAgree) (found : w.unit? id = some u) (finished : u.cell = .finished r)

include agree found finished

theorem BodiesAgree.holds : w.bodies.Holds id u.version r.file := by
  intro e mem unit version
  obtain ⟨v, same, _, current⟩ := agree e mem
  rw [unit, found] at same
  cases same
  obtain ⟨r', cell, agrees⟩ := current version
  rw [finished] at cell
  cases cell
  exact agrees

theorem BodiesAgree.extends (more : w.bodies.Extends cache id u.version r.file) :
    ({ w with bodies := cache } : Workspace).BodiesAgree := by
  intro e mem
  rcases more e mem with old | ⟨unit, version, agrees⟩
  · exact agree e old
  · exact ⟨u, unit ▸ found, Nat.le_of_eq version, fun _ => ⟨r, finished, agrees⟩⟩

end

theorem Grows.withBodies (w : Workspace) (cache : BodyCache) : w.Grows { w with bodies := cache } :=
  ⟨rfl, fun found => found, fun found => ⟨_, found, .refl _⟩⟩

theorem Valid.withBodies (valid : w.Valid projects contents d dirty)
    (agree : ({ w with bodies := cache } : Workspace).BodiesAgree) :
    ({ w with bodies := cache } : Workspace).Valid projects contents d dirty := by
  obtain ⟨keys, registered, unit, project, targets, indexed⟩ := valid.wellFormed
  exact ⟨⟨keys, registered, unit, project, targets, indexed⟩, valid.described, valid.ready,
    valid.projects, valid.placed, valid.linked, valid.reads, agree⟩

/-- Bodies come out of the cache as they are in the tree, and stay there. -/
theorem Valid.resolveAll (valid : w.Valid projects contents d dirty) (found : w.unit? id = some u)
    (finished : u.cell = .finished r)
    (distinct : ∀ g ∈ r.file.emittedFunctions, ∀ h ∈ r.file.emittedFunctions, g.line = h.line → g = h) :
    ∃ cache, w.bodies.resolveAll id r.version r.file.emittedFunctions = (parseBodies r.file.emittedFunctions, cache) ∧
      ({ w with bodies := cache } : Workspace).Valid projects contents d dirty := by
  have version : r.version = u.version := (valid.wellFormed.unit found).version r finished
  obtain ⟨bodies, more⟩ := BodyCache.resolveAll_eq distinct r.file.emittedFunctions
    (valid.bodies.holds found finished) fun _ inside => inside
  rw [version]
  exact ⟨_, Prod.ext bodies rfl, valid.withBodies (valid.bodies.extends found finished more)⟩

end Workspace

theorem ProjectConfig.source_eq_of_line (c : ProjectConfig) (d : Disk) (path : Text) :
    ∀ g ∈ (c.source d path).1.emittedFunctions, ∀ h ∈ (c.source d path).1.emittedFunctions,
      g.line = h.line → g = h := by
  unfold source
  split
  · exact fun g mem => absurd mem not_mem_nil
  · split
    · exact fun g mem => absurd mem not_mem_nil
    · exact fun g first h second => emittedFunctions_eq_of_line first second

theorem Disk.Suits.sameFiles {later : Disk} {projects : List ProjectConfig} {contents : Text → Prop}
    (suits : d.Suits projects contents) (same : d.SameFiles projects (fun _ => False) later) :
    later.Suits projects contents := by
  refine ⟨fun q => (same.held q).trans (suits.free q), fun q content covered read => ?_⟩
  rw [same.absolute] at covered read
  rw [same.read q covered not_false] at read
  exact suits.contents q content covered read

/-- A state of a build whose workspace is right about the files, apart from the dirty ones. -/
structure BuildState.IsValid {σ : Type} (diskOf : σ → Disk) (usable : σ → Prop)
    (projects : List ProjectConfig) (contents : Text → Prop) (dirty : List Text) (s : BuildState σ) :
    Prop where
  workspace : s.workspace.Valid projects contents (diskOf s.world) dirty
  disk : (diskOf s.world).Suits projects contents
  world : usable s.world

/-- A builder whose artifacts are none of the files of some projects. -/
structure Builder.Spares {σ : Type} (b : Builder σ) (usable : σ → Prop) (projects : List ProjectConfig) : Prop where
  prepare : ∀ world, usable world → usable (b.writer.prepare world).2 ∧
    (b.diskOf world).SameFiles projects (fun _ => False) (b.diskOf (b.writer.prepare world).2)
  write : ∀ world name text, usable world →
    let place := artifactPath b.settings.backend.subdir name b.settings.backend.extension
    usable (b.writer.write world place text).2 ∧ (b.diskOf world).SameFiles projects (fun _ => False)
        (b.diskOf (b.writer.write world place text).2)

namespace BuildState.IsValid

variable {σ : Type} {diskOf : σ → Disk} {usable : σ → Prop} {projects : List ProjectConfig}
  {contents : Text → Prop} {dirty : List Text} {s : BuildState σ} {world : σ}

theorem withWorkspace (valid : s.IsValid diskOf usable projects contents dirty)
    (next : w.Valid projects contents (diskOf s.world) dirty) :
    ({ s with workspace := w } : BuildState σ).IsValid diskOf usable projects contents dirty :=
  ⟨next, valid.disk, valid.world⟩

theorem withWorld {world : σ} (valid : s.IsValid diskOf usable projects contents dirty)
    (next : usable world ∧ (diskOf s.world).SameFiles projects (fun _ => False) (diskOf world)) :
    ({ s with world } : BuildState σ).IsValid diskOf usable projects contents dirty :=
  ⟨valid.workspace.sameFiles next.2 (fun _ touched => touched.elim) fun _ mem => mem,
    valid.disk.sameFiles next.2, next.1⟩

end BuildState.IsValid

namespace Builder

variable {σ : Type} {b : Builder σ} {usable : σ → Prop} {projects : List ProjectConfig}
  {contents : Text → Prop} {s : BuildState σ} {c : ProjectConfig} {id : UnitId} {world : σ}

section Emission

theorem qualify_eq (config : w.project? p = some c) (f : SourceFile) : qualify w p f = c.qualify f := by
  funext name
  simp [qualify, config, ProjectConfig.qualify]

theorem writeArtifact_eq (b : Builder σ) (s : BuildState σ) {u : CompilationUnit} {x : Workspace}
    (here : x.unitPath id = u.path) (text : Text) (ds : List Diagnostic) :
    (b.writeArtifact s id u text ds).1.view x = (b.store s.world u.path u.spec.name text ds).1 ∧
      (b.writeArtifact s id u text ds).2 = { s with world := (b.store s.world u.path u.spec.name text ds).2 } := by
  unfold writeArtifact store
  dsimp only
  obtain ⟨result, world⟩ := b.writer.write s.world
    (artifactPath b.settings.backend.subdir u.spec.name b.settings.backend.extension) text
  cases result with
  | ok done => exact ⟨by simp [UnitOutcome.view, Artifact.view, here], rfl⟩
  | error e => exact ⟨rfl, rfl⟩

theorem store_spares (spares : b.Spares usable projects) {world : σ} (fit : usable world)
    (path name text : Text) (ds : List Diagnostic) :
    usable (b.store world path name text ds).2 ∧ (b.diskOf world).SameFiles projects (fun _ => False)
        (b.diskOf (b.store world path name text ds).2) := by
  have written := spares.write world name text fit
  dsimp only at written
  unfold store
  dsimp only
  split <;> rename_i same <;> rw [same] at written <;> exact written

theorem emitUnit_spec (valid : s.IsValid b.diskOf usable projects contents [])
    (spares : b.Spares usable projects) (active : b.canceled = false)
    (config : projects[b.project]? = some c) (mem : s.workspace.IsMember b.project id) :
    (∀ x : Workspace, x.unitPath id = s.workspace.unitPath id →
      (b.emitUnit s id).1.view x = (b.emitPath c s.world (s.workspace.unitPath id)).1) ∧
      (b.emitUnit s id).2.world = (b.emitPath c s.world (s.workspace.unitPath id)).2 ∧
      (b.emitUnit s id).2.IsValid b.diskOf usable projects contents [] ∧
      s.workspace.Grows (b.emitUnit s id).2.workspace := by
  obtain ⟨r, v, tree, has, source⟩ := valid.workspace.exists_tree config valid.disk mem
  obtain ⟨u, found, own⟩ := mem
  have parsed := valid.workspace.startParse valid.disk id
  have grown := Grows.startParse s.workspace (b.diskOf s.world) id
  have described := valid.workspace.describe config found own
  have path := unitPath_of_unit? found
  have distinct := c.source_eq_of_line (b.diskOf s.world) (s.workspace.unitPath id)
  rw [← source] at distinct
  obtain ⟨cache, bodies, kept⟩ := parsed.resolveAll has.found has.finished distinct
  have grows := grown.trans (.withBodies _ cache)
  have emission := b.emitUnit_eq s id
  rw [found, active, tree] at emission
  simp only [emitParsed] at emission
  rw [path] at source described ⊢
  by_cases wrong : Diagnostic.hasErrors r.diagnostics
  · have plain : b.emitPath c s.world u.path = (⟨none, []⟩, s.world) := by
      simp [emitPath, print, ← source, wrong]
    rw [emission, plain, SyntaxResult.hasErrors, if_pos wrong]
    exact ⟨fun _ _ => rfl, rfl, valid.withWorkspace parsed, grown⟩
  · rw [SyntaxResult.hasErrors, if_neg wrong] at emission
    simp only [readRest, bodies, conclude, nil_append] at emission
    by_cases failed : Diagnostic.hasErrors (parseBodies r.file.emittedFunctions).2
    · have plain : b.emitPath c s.world u.path = (⟨none, (parseBodies r.file.emittedFunctions).2⟩, s.world) := by
        simp [emitPath, print, ← source, wrong, failed]
      rw [emission, plain, if_pos failed]
      exact ⟨fun _ _ => rfl, rfl, valid.withWorkspace kept, grows⟩
    · rw [if_neg failed, qualify_eq (kept.projects ▸ config)] at emission
      have plain : b.emitPath c s.world u.path = b.store s.world u.path u.spec.name
          (emitFile
            { settings := b.settings
              file := r.file
              unitName := some u.spec.name
              qualify := c.qualify r.file
              bodies := (parseBodies r.file.emittedFunctions).1 }).text
          (parseBodies r.file.emittedFunctions).2 := by
        simp [emitPath, print, ← source, wrong, failed, described]
      rw [emission, plain]
      refine ⟨fun x here => (b.writeArtifact_eq _ here _ _).1, ?_⟩
      rw [(b.writeArtifact_eq _ path _ _).2]
      exact ⟨rfl, (valid.withWorkspace kept).withWorld (store_spares spares valid.world _ _ _ _), grows⟩

theorem emitUnits_spec (spares : b.Spares usable projects) (active : b.canceled = false)
    (config : projects[b.project]? = some c) (ids : List UnitId) :
    ∀ {s : BuildState σ}, s.IsValid b.diskOf usable projects contents [] →
      (∀ id ∈ ids, s.workspace.IsMember b.project id) →
      (∀ x : Workspace, ids.map x.unitPath = ids.map s.workspace.unitPath → (b.emitUnits s ids).1.map (·.view x) =
          (b.emitPaths c s.world (ids.map s.workspace.unitPath)).1) ∧
        (b.emitUnits s ids).2.world = (b.emitPaths c s.world (ids.map s.workspace.unitPath)).2 ∧
        (b.emitUnits s ids).2.IsValid b.diskOf usable projects contents [] ∧
        s.workspace.Grows (b.emitUnits s ids).2.workspace := by
  induction ids with
  | nil => exact fun valid _ => ⟨fun _ _ => rfl, rfl, valid, .refl _⟩
  | cons id ids ih =>
    intro s valid members
    obtain ⟨mem, rest⟩ := forall_mem_cons.mp members
    obtain ⟨view, world, next, grown⟩ := emitUnit_spec valid spares active config mem
    obtain ⟨views, worlds, last, grows⟩ := ih next fun j other => grown.isMember (rest j other)
    rw [world, grown.map_unitPath rest] at views worlds
    refine ⟨fun x same => ?_, worlds, last, grown.trans grows⟩
    injection same with here others
    exact congr (congrArg cons (view x here)) (views x others)

end Emission

section Diagnostics

theorem treeDiagnostics_spec (valid : w.Valid projects contents d []) (suits : d.Suits projects contents)
    (config : projects[p]? = some c) {ids : List UnitId} (members : ∀ id ∈ ids, w.IsMember p id) :
    (treeDiagnostics w d ids).1 = (ids.map w.unitPath).flatMap (fun path => (c.source d path).2) ∧
      (treeDiagnostics w d ids).2.Valid projects contents d [] ∧ w.Grows (treeDiagnostics w d ids).2 := by
  have last := treeDiagnostics_preserves (motive := fun x => x.Valid projects contents d [])
    (fun x id good => good.startParse suits id) ids valid
  obtain ⟨grown, trees, reports⟩ := valid.ready.treeDiagnostics suits.free ids members
  refine ⟨?_, last, grown⟩
  rw [reports _ (.refl _), ← grown.map_unitPath members, flatMap_map]
  refine flatMap_congr fun id mem => ?_
  obtain ⟨u, tree, has⟩ := trees id mem
  rw [has.tree?_eq, ← last.source config (grown.isMember (members id mem)) has]
  rfl

end Diagnostics

section Execution

theorem artifacts_view (x : Workspace) (r : BuildResult) :
    r.artifacts.map (·.view x) = (r.outcomes.map (·.view x)).filterMap (·.artifact) := by
  simp only [BuildResult.artifacts, filterMap_map, map_filterMap]
  rfl

theorem diagnostics_view (x : Workspace) (outcomes : List UnitOutcome) :
    outcomes.flatMap (·.diagnostics) = (outcomes.map (·.view x)).flatMap (·.diagnostics) := by
  rw [flatMap_map]
  rfl

theorem execute_spec (valid : s.IsValid b.diskOf usable projects contents [])
    (spares : b.Spares usable projects) (active : b.canceled = false)
    (config : projects[b.project]? = some c) {plan : BuildPlan}
    (reachable : ∀ id ∈ plan.reachable, s.workspace.IsMember b.project id)
    (emitted : ∀ id ∈ plan.emitted, s.workspace.IsMember b.project id) (root : UnitId)
    (ds : List Diagnostic) :
    let paths := plan.reachable.map s.workspace.unitPath
    let emission := b.emitPaths c s.world (plan.emitted.map s.workspace.unitPath)
    let later := (b.execute s root plan ds).2
    (b.execute s root plan ds).1.view later.workspace = ⟨paths, plan.emitted.map s.workspace.unitPath,
          ds ++ paths.flatMap (fun path => (c.source (b.diskOf s.world) path).2) ++ emission.1.flatMap (·.diagnostics),
          emission.1.filterMap (·.artifact)⟩ ∧
      later.world = emission.2 ∧ later.IsValid b.diskOf usable projects contents [] := by
  obtain ⟨diagnostics, parsed, grownTrees⟩ :=
    treeDiagnostics_spec valid.workspace valid.disk config reachable
  obtain ⟨views, world, stored, grownBodies⟩ :=
    emitUnits_spec spares active config plan.emitted (valid.withWorkspace parsed)
      fun id mem => grownTrees.isMember (emitted id mem)
  obtain ⟨last, grownDigests⟩ := fingerprints_preserves
    (motive := fun x => x.Valid projects contents _ [] ∧ Grows _ x)
    (fun x id ⟨good, grown⟩ => ⟨good.startParse stored.disk id, grown.trans (.startParse x _ id)⟩) false
    plan.reachable ⟨stored.workspace, .refl _⟩
  have grown := (grownTrees.trans grownBodies).trans grownDigests
  have same := (grown.map_unitPath emitted).trans (grownTrees.map_unitPath emitted).symm
  specialize views _ same
  rw [grownTrees.map_unitPath emitted] at views world
  refine ⟨?_, world, stored.withWorkspace last⟩
  have planned : (b.execute s root plan ds).1.plan = plan := rfl
  have found : (b.execute s root plan ds).1.diagnostics =
      ds ++ (treeDiagnostics s.workspace (b.diskOf s.world) plan.reachable).1 ++
        (b.execute s root plan ds).1.outcomes.flatMap (·.diagnostics) := rfl
  have outcomes : (b.execute s root plan ds).1.outcomes.map
      (·.view (b.execute s root plan ds).2.workspace) = (b.emitPaths c s.world _).1 := views
  have order : plan.reachable.map (b.execute s root plan ds).2.workspace.unitPath = _ :=
    grown.map_unitPath reachable
  have written : plan.emitted.map (b.execute s root plan ds).2.workspace.unitPath = _ :=
    grown.map_unitPath emitted
  rw [BuildResult.view, artifacts_view, planned, found,
    diagnostics_view (b.execute s root plan ds).2.workspace, outcomes, order, written, diagnostics]

theorem plan_spec (valid : w.Valid projects contents d []) (suits : d.Suits projects contents)
    (rooted : ∀ c ∈ projects, c.Rooted) (config : projects[p]? = some c) (mem : w.IsMember p root) :
    ∃ plan ds later, w.plan d false root = (some (plan, ds), later) ∧
      later.Valid projects contents d [] ∧ w.Grows later ∧
      (∀ id ∈ plan.reachable, later.IsMember p id) ∧ (∀ id ∈ plan.emitted, later.IsMember p id) ∧
      ∀ more, let t := c.traversal d (w.depthBound d + more) (w.unitPath root)
        plan.reachable.map later.unitPath = t.done.reverse ∧
        plan.emitted.map later.unitPath = t.done.reverse.filter c.isEmittable ∧
        ds = t.events.reverse.flatMap (c.eventDiagnostics d) := by
  obtain ⟨t, later, reaches, last⟩ := exists_reaches valid.wellFormed valid.described valid.ready
    (valid.projects ▸ rooted) suits.free (forall_mem_singleton.mpr mem)
    (fun x => x.Valid projects contents d []) valid fun x id good => good.dependencies suits false id
  have members : ∀ id ∈ t.done.reverse, later.IsMember p id :=
    fun id inside => (reaches.complete id (mem_reverse.mp inside)).1
  refine ⟨_, _, later, reaches.plan_eq, last, reaches.grows, members,
    fun id inside => members id (mem_filter.mp inside).1, fun more => ?_⟩
  obtain ⟨u, found, _⟩ := mem
  rw [← reaches.grows.unitPath found, (reaches.traversal last config more).1]
  exact ⟨map_reverse, reaches.emitted last config, reaches.eventDiagnostics last config⟩

theorem build_eq_ok_iff {path : Text} {r : BuildResult} {last : BuildState σ} :
    b.build s path = (.ok r, last) ↔ ∃ root w world plan ds planned,
      s.workspace.request b.project ((b.diskOf s.world).absolute path) = (some root, w) ∧
      b.writer.prepare s.world = (.ok (), world) ∧
      w.plan (b.diskOf world) b.canceled root = (some (plan, ds), planned) ∧ b.canceled = false ∧
      b.execute ⟨planned, world⟩ root plan ds = (r, last) := by
  constructor
  · intro built
    unfold build buildWith buildFrom at built
    split at built
    · cases built
    · rename_i root w requested
      split at built
      · cases built
      · rename_i world prepared
        split at built
        · cases built
        · rename_i plan ds planned answer
          split at built
          · cases built
          · rename_i active
            cases built
            exact ⟨root, w, world, plan, ds, planned, requested, prepared, answer, Bool.not_eq_true _ ▸ active, rfl⟩
  · rintro ⟨root, w, world, plan, ds, planned, requested, prepared, answer, active, run⟩
    rw [active] at answer
    rw [execute] at run
    simp [build, buildWith, buildFrom, requested, prepared, active, answer, run]

variable (valid : s.IsValid b.diskOf usable projects contents []) (spares : b.Spares usable projects)
  (rooted : ∀ c ∈ projects, c.Rooted)

include valid spares rooted

theorem buildFrom_spec (config : projects[b.project]? = some c) (mem : s.workspace.IsMember b.project root) :
    (b.buildFrom b.emitUnits s root).2.IsValid b.diskOf usable projects contents [] ∧ (b.canceled = false → ∃ depth, ∀ more,
        ((b.buildFrom b.emitUnits s root).1.map (·.view (b.buildFrom b.emitUnits s root).2.workspace), (b.buildFrom b.emitUnits s root).2.world) =
          (.ok (b.cleanFrom c (depth + more) s.world (s.workspace.unitPath root)).1,
            (b.cleanFrom c (depth + more) s.world (s.workspace.unitPath root)).2)) := by
  cases active : b.canceled with
  | true =>
    have result : (b.buildFrom b.emitUnits s root).2 =
        { s with workspace := (s.workspace.dependencies (b.diskOf s.world) true root).2 } := by
      rw [buildFrom, active]
      rfl
    rw [result]
    exact ⟨valid.withWorkspace (valid.workspace.dependencies valid.disk true root), Bool.noConfusion⟩
  | false =>
    obtain ⟨plan, ds, later, answer, planned, _, reachable, emitted, paths⟩ :=
      plan_spec valid.workspace valid.disk rooted config mem
    have result : b.buildFrom b.emitUnits s root = (.ok (b.execute { s with workspace := later } root plan ds).1,
        (b.execute { s with workspace := later } root plan ds).2) := by
      rw [buildFrom, active, answer]
      rfl
    obtain ⟨view, world, last⟩ := execute_spec (valid.withWorkspace planned) spares active config
      reachable emitted root ds
    rw [result]
    refine ⟨last, fun _ => ⟨s.workspace.depthBound (b.diskOf s.world), fun more => ?_⟩⟩
    obtain ⟨order, written, found⟩ := paths more
    dsimp only [Except.map]
    rw [view, world, order, written, found]
    rfl

/-- A build of a valid workspace is a build from the files alone, and keeps the workspace valid. -/
theorem build_spec (path : Text) :
    (b.build s path).2.IsValid b.diskOf usable projects contents [] ∧ (b.canceled = false → ∃ depth, ∀ more,
        b.outcome s path = b.clean projects (depth + more) s.world path) := by
  have requested := valid.withWorkspace (valid.workspace.request b.project path)
  have described : ∀ q, s.workspace.describe b.project q = projects[b.project]?.bind (·.describe q) :=
    fun q => by rw [describe, project?, valid.workspace.projects]
  have answer := request_fst valid.workspace.described b.project
    ((b.diskOf s.world).absolute path)
  have result : b.build s path = _ := buildWith.eq_1 ..
  rw [described] at answer
  generalize s.workspace.request b.project ((b.diskOf s.world).absolute path) = asked
    at requested answer result
  obtain ⟨found, workspace⟩ := asked
  rcases answer with ⟨known, root, same, place⟩ | ⟨hidden, same⟩ <;> dsimp only at same <;> subst same
  · obtain ⟨u, found, own, here⟩ := requested.workspace.wellFormed.registered place
    obtain ⟨spec, known⟩ := isSome_iff_exists.mp known
    obtain ⟨c, config, known⟩ := bind_eq_some_iff.mp known
    have prepared := requested.withWorld (spares.prepare s.world valid.world)
    cases preparation : b.writer.prepare s.world with
    | mk answer world =>
      rw [preparation] at prepared result
      cases answer with
      | error e =>
        rw [outcome, result]
        refine ⟨prepared, fun _ => ⟨0, fun more => ?_⟩⟩
        simp only [clean, config, known, preparation]
        rfl
      | ok _ =>
        obtain ⟨last, view⟩ := buildFrom_spec prepared spares rooted config ⟨u, found, own⟩
        rw [outcome, result]
        refine ⟨last, fun active => ?_⟩
        obtain ⟨depth, view⟩ := view active
        refine ⟨depth, fun more => (view more).trans ?_⟩
        simp only [clean, config, known, preparation, unitPath_of_unit? found, here]
        rfl
  · rw [outcome, result]
    refine ⟨requested, fun _ => ⟨0, fun more => ?_⟩⟩
    unfold clean
    cases config : projects[b.project]? with
    | none => rfl
    | some c =>
      rw [config] at hidden
      simp only [bind_some] at hidden
      simp only [hidden]
      rfl

end Execution

end Builder

end ScriptBuild
