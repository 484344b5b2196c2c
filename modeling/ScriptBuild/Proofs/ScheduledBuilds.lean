import ScriptBuild.Proofs.BuildAccounting
import ScriptBuild.Proofs.IncrementalBuild

/-! Builds by any schedule of their workers, whatever was built and requested before. -/

namespace ScriptBuild

open Workspace ObjectStore BuildResult

variable {σ : Type} {b : Builder σ} {usable : σ → Prop} {result : Text → Except WriteError Unit}
  {s : BuildState σ} {w later : Workspace} {p : ProjectId} {id root : UnitId}

theorem BuildState.Shares.parses (shares : s.Shares usable w) (sound : w.Sound) : w.Parses s.workspace := by
  obtain ⟨cache, same⟩ := shares.workspace
  have agree := shares.bodies
  rw [same] at agree ⊢
  exact ⟨sound.withBodies agree, .withBodies w cache, rfl⟩

namespace Builder

section Execution

variable {plan : BuildPlan} {ds : List Diagnostic}

/-- The outcome of a unit goes on to tell of it when more trees have been asked for. -/
theorem tells_emitUnit_grows (sound : w.Sound) (pathwise : b.Pathwise usable result)
    (active : b.canceled = false) (shares : s.Shares usable w) (grown : w.Grows later)
    (trees : ∃ u tree, w.HasTree id u tree) {v : CompilationUnit} {tree : SyntaxResult}
    (has : later.HasTree id v tree) : (b.emitUnit s id).1.Tells (b.isClean result later) id v.path tree := by
  obtain ⟨u, old, before⟩ := trees
  obtain ⟨x, after, kept⟩ := before.grows grown
  obtain rfl := Option.some.inj (has.found.symm.trans after.found)
  obtain rfl := SyntaxCell.finished.inj (has.finished.symm.trans after.finished)
  have told := tells_emitUnit sound pathwise active shares before
  have guard : Option.guard (b.isClean result later) id = Option.guard (b.isClean result w) id := by
    simp [Option.guard, isClean_grows before grown]
  rw [kept.path]
  exact ⟨told.artifact.trans guard.symm, told.failed, told.quiet⟩

/-- The units of a plan come to the same by every schedule, and are accounted for. -/
theorem executeBy_spec (sound : s.workspace.Sound) (fit : usable s.world)
    (pathwise : b.Pathwise usable result) (active : b.canceled = false)
    (plans : s.workspace.Plans p root plan) (fine : Diagnostic.hasErrors ds = false) :
    ∃ outcomes diagnostics, ∀ schedule,
      let run := b.executeWith (b.emitBy schedule) s root plan ds
      run.1.outcomes = outcomes ∧ run.1.diagnostics = diagnostics ∧
        run.1.Accounts b result run.2.workspace ∧ usable run.2.world ∧
        s.workspace.Parses run.2.workspace := by
  let start : BuildState σ :=
    ⟨(treeDiagnostics s.workspace (b.diskOf s.world) plan.reachable).2, s.world⟩
  let f := fun id => (b.emitUnit start id).1
  have parsed := treeDiagnostics_preserves (motive := s.workspace.Parses)
    (fun _ id good => good.startParse (pathwise.free s.world fit) id) plan.reachable sound.parses_refl
  obtain ⟨_, trees, reports⟩ := sound.ready.treeDiagnostics (pathwise.free s.world fit) plan.reachable plans.members
  have shares : start.Shares usable start.workspace := ⟨⟨_, rfl⟩, parsed.sound.bodies, fit⟩
  have emitted : ∀ id ∈ plan.emitted, ∃ u tree, start.workspace.HasTree id u tree :=
    fun id mem => trees id (plans.mem_reachable mem)
  refine ⟨plan.emitted.map f, ds ++ (treeDiagnostics s.workspace (b.diskOf s.world) plan.reachable).1 ++
    (plan.emitted.map f).flatMap (·.diagnostics), fun schedule => ?_⟩
  intro run
  obtain ⟨outcomes, shared⟩ := emitBy_spec parsed.sound pathwise active shares emitted schedule
  have last := fingerprints_preserves (motive := start.workspace.Parses)
      (fun _ id good => good.startParse (pathwise.free _ shared.world) id) false plan.reachable
      (shared.parses parsed.sound)
  have listed : run.1.diagnostics = ds ++ (treeDiagnostics s.workspace (b.diskOf s.world) plan.reachable).1 ++
      run.1.outcomes.flatMap (·.diagnostics) := rfl
  have same : run.1.outcomes = plan.emitted.map f := outcomes
  have skipped : run.1.report.skippedCount = run.1.outcomes.countP (·.artifact.isNone) := List.countP_map
  have fits : ∀ id ∈ plan.reachable, ∃ u tree, run.2.workspace.HasTree id u tree := by
    intro id mem
    obtain ⟨u, tree, has⟩ := trees id mem
    obtain ⟨v, next, _⟩ := has.grows last.grows
    exact ⟨v, tree, next⟩
  have tells : ∀ id ∈ plan.emitted, ∀ u tree, run.2.workspace.HasTree id u tree →
      (f id).Tells (b.isClean result run.2.workspace) id u.path tree :=
    fun id mem u tree has =>
      tells_emitUnit_grows parsed.sound pathwise active shares last.grows (emitted id mem) has
  have planned := plans.parses (parsed.trans last)
  have reported := listed
  rw [reports _ last.grows] at reported
  refine ⟨same, listed.trans (by rw [same]), ?_, shared.world, parsed.trans last⟩
  refine ⟨planned.start.symm ▸ planned.order, planned.emitted, ?_, fun id mem absent => ?_, ?_, ?_⟩
  · exact artifacts_eq_filter fits planned same tells
  · exact exists_error fits planned same tells reported mem absent last.sound
  · exact isSuccess_eq_false_iff fits planned same tells fine reported last.sound
  · rw [skipped, length_artifacts_add, same, List.length_map]
    rfl

end Execution

end Builder

/-- A state of a build whose workspace is sound, whatever the files are now. -/
structure BuildState.IsSound (usable : σ → Prop) (projects : List ProjectConfig) (s : BuildState σ) : Prop where
  workspace : s.workspace.Sound
  projects : s.workspace.projects = projects
  world : usable s.world

variable {projects : List ProjectConfig}

theorem BuildState.IsSound.request (state : s.IsSound usable projects) (p : ProjectId) (path : Text) :
    ({ s with workspace := (s.workspace.request p path).2 } : BuildState σ).IsSound usable projects :=
  ⟨state.workspace.request p path, (Grows.request _ p path).projects.trans state.projects, state.world⟩

theorem BuildState.IsSound.dependencies (state : s.IsSound usable projects) {d : Disk}
    (free : ∀ path, d.isHeld path = false) (canceled : Bool) (id : UnitId) :
    ({ s with workspace := (s.workspace.dependencies d canceled id).2 } : BuildState σ).IsSound usable
      projects := by
  obtain ⟨_, _, grown⟩ := dependencies_grows state.workspace.wellFormed state.workspace.described
    d canceled id
  exact ⟨state.workspace.dependencies free canceled id, grown.projects.trans state.projects, state.world⟩

namespace Builder

section Builds

variable (rooted : ∀ c ∈ projects, c.Rooted) (pathwise : b.Pathwise usable result)

include rooted pathwise

/-- A build that is planned comes to the same by every schedule. -/
theorem planned_spec (active : b.canceled = false) (state : s.IsSound usable projects)
    (mem : s.workspace.IsMember b.project root) :
    ∃ outcomes diagnostics, ∃ plan ds planned,
      s.workspace.plan (b.diskOf s.world) b.canceled root = (some (plan, ds), planned) ∧
      ∀ schedule,
        let run := b.executeWith (b.emitBy schedule) ⟨planned, s.world⟩ root plan ds
        run.1.outcomes = outcomes ∧ run.1.diagnostics = diagnostics ∧
          run.1.Accounts b result run.2.workspace ∧ run.2.IsSound usable projects := by
  obtain ⟨plan, ds, planned, answer, sound, grown, plans, fine⟩ := state.workspace.plan
    (pathwise.free s.world state.world) (state.projects.symm ▸ rooted) mem
  obtain ⟨outcomes, diagnostics, same⟩ := executeBy_spec (s := ⟨planned, s.world⟩) sound state.world pathwise
    active plans fine
  refine ⟨outcomes, diagnostics, plan, ds, planned, active ▸ answer, fun schedule => ?_⟩
  obtain ⟨sameOutcomes, sameDiagnostics, accounts, fit, parses⟩ := same schedule
  refine ⟨sameOutcomes, sameDiagnostics, accounts, parses.sound, ?_, fit⟩
  exact parses.grows.projects.trans (grown.projects.trans state.projects)

/-- A build of a unit of its project comes to the same by every schedule. -/
theorem buildBy_spec (active : b.canceled = false) (state : s.IsSound usable projects) {path : Text}
    {c : ProjectConfig} (config : projects[b.project]? = some c)
    (inside : (c.describe ((b.diskOf s.world).absolute path)).isSome)
    (prepared : (b.writer.prepare s.world).1 = .ok ()) :
    ∃ outcomes diagnostics, ∀ schedule, ∃ r last, b.buildBy schedule s path = (.ok r, last) ∧
      r.outcomes = outcomes ∧ r.diagnostics = diagnostics ∧ r.Accounts b result last.workspace ∧
      last.IsSound usable projects := by
  have requested := state.request b.project ((b.diskOf s.world).absolute path)
  have known := request_fst state.workspace.described b.project ((b.diskOf s.world).absolute path)
  rw [← describe_eq (w := s.workspace) (by rw [project?, state.projects, config])] at inside
  obtain ⟨_, root, answer, place⟩ := known.resolve_right fun hidden => by simp [hidden.1] at inside
  obtain ⟨u, found, own, _⟩ := requested.workspace.wellFormed.registered place
  obtain ⟨outcomes, diagnostics, plan, ds, planned, answered, same⟩ := planned_spec rooted pathwise active
    (s := ⟨_, (b.writer.prepare s.world).2⟩)
    ⟨requested.workspace, requested.projects, pathwise.prepare s.world state.world⟩ ⟨u, found, own⟩
  refine ⟨outcomes, diagnostics, fun schedule => ⟨_, _, ?_, same schedule⟩⟩
  unfold buildBy buildWith buildFrom
  generalize s.workspace.request b.project ((b.diskOf s.world).absolute path) = request at answer answered
  generalize b.writer.prepare s.world = preparation at prepared answered
  obtain ⟨_, workspace⟩ := request
  obtain ⟨_, world⟩ := preparation
  subst answer prepared
  dsimp only
  rw [answered, active]
  rfl

/-- A build leaves the workspace sound, whether it gets through or not. -/
theorem isSound_buildBy (state : s.IsSound usable projects) (schedule : List Nat) (path : Text) :
    (b.buildBy schedule s path).2.IsSound usable projects := by
  have requested := state.request b.project ((b.diskOf s.world).absolute path)
  have known := request_fst state.workspace.described b.project ((b.diskOf s.world).absolute path)
  have fit := pathwise.prepare s.world state.world
  unfold buildBy buildWith buildFrom
  generalize s.workspace.request b.project ((b.diskOf s.world).absolute path) = request at requested known
  generalize b.writer.prepare s.world = preparation at fit
  obtain ⟨answer, workspace⟩ := request
  obtain ⟨outcome, world⟩ := preparation
  have ready : BuildState.IsSound usable projects ⟨workspace, world⟩ :=
    ⟨requested.workspace, requested.projects, fit⟩
  cases answer with
  | none => exact requested
  | some root =>
    cases outcome with
    | error e => exact ready
    | ok done =>
      dsimp only
      cases active : b.canceled with
      | true =>
        exact ready.dependencies (pathwise.free world fit) true root
      | false =>
        rcases known with ⟨_, id, same, place⟩ | ⟨_, none⟩
        · cases same
          obtain ⟨u, found, own, _⟩ := ready.workspace.wellFormed.registered place
          obtain ⟨_, _, plan, ds, planned, answered, runs⟩ :=
            planned_spec rooted pathwise active ready ⟨u, found, own⟩
          rw [active] at answered
          rw [answered]
          exact (runs schedule).2.2.2
        · cases none

end Builds

end Builder

/-- The states that a workspace and the world around it come to by builds and requests. Files may change in between,
refreshed or not. -/
inductive BuildHistory (diskOf : σ → Disk) (usable : σ → Prop) (projects : List ProjectConfig) :
    BuildState σ → Prop where
  | start {world : σ} {bodies : BodyCache} : usable world → bodies.entries = [] →
      BuildHistory diskOf usable projects ⟨fresh projects bodies, world⟩
  | build {s : BuildState σ} {result : Text → Except WriteError Unit} (b : Builder σ) (schedule : List Nat)
      (path : Text) : BuildHistory diskOf usable projects s → b.diskOf = diskOf → b.Pathwise usable result →
      BuildHistory diskOf usable projects (b.buildBy schedule s path).2
  | request {s : BuildState σ} (p : ProjectId) (path : Text) : BuildHistory diskOf usable projects s →
      BuildHistory diskOf usable projects { s with workspace := (s.workspace.request p path).2 }
  | tree {s : BuildState σ} (canceled : Bool) (id : UnitId) : BuildHistory diskOf usable projects s →
      BuildHistory diskOf usable projects
        { s with workspace := (s.workspace.tree (diskOf s.world) canceled id).2 }
  | dependencies {s : BuildState σ} (canceled : Bool) (id : UnitId) : BuildHistory diskOf usable projects s →
      BuildHistory diskOf usable projects
        { s with workspace := (s.workspace.dependencies (diskOf s.world) canceled id).2 }
  | refresh {s : BuildState σ} (path : Text) : BuildHistory diskOf usable projects s →
      BuildHistory diskOf usable projects
        { s with workspace := (s.workspace.refresh (diskOf s.world) path).2 }
  | change {s : BuildState σ} {world : σ} : BuildHistory diskOf usable projects s → usable world →
      BuildHistory diskOf usable projects { s with world }

theorem BuildHistory.isSound {diskOf : σ → Disk} (rooted : ∀ c ∈ projects, c.Rooted)
    (free : ∀ world, usable world → ∀ path, (diskOf world).isHeld path = false)
    (history : BuildHistory diskOf usable projects s) : s.IsSound usable projects := by
  induction history with
  | start fit empty => exact ⟨sound_fresh projects empty, rfl, fit⟩
  | build b schedule path _ _ pathwise ih => exact Builder.isSound_buildBy rooted pathwise ih schedule path
  | request p path _ ih => exact ih.request p path
  | tree canceled id _ ih =>
    rw [tree_snd]
    have parsed := ih.workspace.parses_refl.startParse (free _ ih.world) id
    exact ⟨parsed.sound, parsed.grows.projects.trans ih.projects, ih.world⟩
  | dependencies canceled id _ ih => exact ih.dependencies (free _ ih.world) canceled id
  | refresh path _ ih =>
    refine ⟨ih.workspace.refresh _ path, ?_, ih.world⟩
    rw [refresh_eq, projects_invalidateAll]
    exact ih.projects
  | change _ fit ih => exact ⟨ih.workspace, ih.projects, fit⟩

/-- By every schedule a build has the artifacts and the reports that it has when units are taken one after another. -/
theorem BuildHistory.buildBy_accounts (rooted : ∀ c ∈ projects, c.Rooted)
    (history : BuildHistory b.diskOf usable projects s) (pathwise : b.Pathwise usable result)
    (active : b.canceled = false) {path : Text} {c : ProjectConfig}
    (config : projects[b.project]? = some c)
    (inside : (c.describe ((b.diskOf s.world).absolute path)).isSome)
    (prepared : (b.writer.prepare s.world).1 = .ok ()) :
    ∃ r, (b.build s path).1 = .ok r ∧
      ∀ schedule, ∃ scheduled last, b.buildBy schedule s path = (.ok scheduled, last) ∧
        scheduled.diagnostics = r.diagnostics ∧ scheduled.artifacts = r.artifacts ∧
        scheduled.Accounts b result last.workspace := by
  obtain ⟨outcomes, diagnostics, runs⟩ :=
    Builder.buildBy_spec rooted pathwise active (history.isSound rooted pathwise.free) config inside prepared
  obtain ⟨r, state, built, ofBuild, reported, _⟩ := runs []
  rw [Builder.buildBy_nil] at built
  refine ⟨r, congrArg Prod.fst built, fun schedule => ?_⟩
  obtain ⟨scheduled, last, done, same, sameReports, accounts, _⟩ := runs schedule
  refine ⟨scheduled, last, done, sameReports.trans reported.symm, ?_, accounts⟩
  rw [artifacts, artifacts, same, ofBuild]

namespace ObjectStore

variable {t : ObjectTarget}

variable (t : ObjectTarget) (s : ObjectStore)

theorem denied_check : (check t s).2.denied = s.denied := by
  unfold check
  split
  · rfl
  · split
    · rename_i asked
      exact congrArg (fun o => o.2.denied) asked.symm
    · rename_i s' asked
      have same : s'.denied = s.denied := congrArg (fun o => o.2.denied) asked.symm
      split
      · exact same
      · split <;> exact same

theorem denied_ensureBucket : (ensureBucket t s).2.denied = s.denied := by
  unfold ensureBucket
  split
  · rfl
  · exact denied_check t s

theorem checked_ensureBucket : (ensureBucket t s).2.checked = some (ensureBucket t s).1 := by
  unfold ensureBucket
  split
  · assumption
  · rfl

end ObjectStore

def ObjectTarget.answer (t : ObjectTarget) (denied : List Text) (path : Text) : Except WriteError Unit :=
  if denied.any fun part => Text.containsText (t.key path) part then
    .error (.store ("put " ++ t.key path) "Access Denied.")
  else .ok ()

namespace ObjectStore

variable {t : ObjectTarget} {s : ObjectStore}

theorem prepare_of_bucket (bucket : (ensureBucket t s).1 = none) : prepare t s = (.ok (), (ensureBucket t s).2) := by
  unfold prepare
  split <;> rename_i ensured <;> rw [ensured] at bucket ⊢
  cases bucket

theorem write_of_bucket (bucket : (ensureBucket t s).1 = none) (path data : Text) :
    write t s path data = (t.answer s.denied path,
      ((ensureBucket t s).2.request (.put t.bucket (t.key path) (contentType path) data)).2) := by
  have denied := denied_ensureBucket t s
  unfold write ObjectTarget.answer
  split <;> rename_i later ensured <;> rw [ensured] at bucket denied ⊢
  · cases bucket
  · rw [← denied]
    cases refused : later.denied.any fun part => Text.containsText (t.key path) part with
    | true => simp only [request, isDenied, StoreRequest.action, refused, if_true]
    | false => simp [request, isDenied, StoreRequest.action, refused]

end ObjectStore

/-- A storage whose bucket is there, or can be made. -/
structure Storage.IsOpen (t : ObjectTarget) (denied : List Text) (s : Storage) : Prop where
  bucket : (ensureBucket t s.store).1 = none
  denied : s.store.denied = denied
  free : ∀ path, s.disk.isHeld path = false

/-- Whether an object is refused is a matter of its key. -/
theorem Builder.pathwise_objects {b : Builder Storage} (target : ObjectTarget) (canceled : Bool)
    (writer : b.writer = (Output.objects target).writer canceled) (disk : b.diskOf = Storage.disk)
    (denied : List Text) : b.Pathwise (Storage.IsOpen target denied) (target.answer denied) := by
  -- later requests change neither that the bucket was found nor what is refused
  have stays : ∀ world : Storage, world.IsOpen target denied → ∀ store : ObjectStore,
      store.checked = (ensureBucket target world.store).2.checked →
      store.denied = (ensureBucket target world.store).2.denied →
      ({ world with store } : Storage).IsOpen target denied := by
    intro world fit store checked refused
    rw [checked_ensureBucket, fit.bucket] at checked
    rw [denied_ensureBucket, fit.denied] at refused
    exact ⟨by simp [ensureBucket, checked], refused, fit.free⟩
  refine ⟨fun world fit => ?_, fun world fit => ?_, fun world place text fit => ?_⟩
  · rw [disk]
    exact fit.free
  · rw [writer]
    simp only [Output.writer, Output.inStore, prepare_of_bucket fit.bucket]
    exact stays world fit _ rfl rfl
  · rw [writer]
    simp only [Output.writer, Output.inStore, write_of_bucket fit.bucket, fit.denied]
    exact ⟨trivial, stays world fit _ rfl rfl⟩

/-- A file that imports three others: a broken class, a broken body, and one that the bucket refuses. -/
def faultyFiles : Disk :=
  { entries :=
      [("/src", { names := some ["A.kn", "B.kn", "C.kn", "D.kn"] }),
        ("/src/A.kn", { content := "import B\nimport C\nimport D\nclass A\nend" }),
        ("/src/B.kn", { content := "class" }),
        ("/src/C.kn", { content := "class C\nfunction f(): int\nreturn )\nend\nend" }),
        ("/src/D.kn", { content := "class D\nend" })] }

/-- Nothing was built yet, and the cache has room for one body. -/
def faultyState : BuildState Storage :=
  ⟨fresh [mutualProject] (.ofSize 1),
    { disk := faultyFiles, store := { hasBucket := true, denied := ["D.js"] } }⟩

theorem accounts_faultyState :
    ∃ r, (bucketBuilder.build faultyState "/src/A.kn").1 = .ok r ∧
      ∀ schedule, ∃ scheduled last,
        bucketBuilder.buildBy schedule faultyState "/src/A.kn" = (.ok scheduled, last) ∧
        scheduled.diagnostics = r.diagnostics ∧ scheduled.artifacts = r.artifacts ∧
        scheduled.Accounts bucketBuilder (ObjectTarget.answer ⟨"bucket", []⟩ ["D.js"]) last.workspace := by
  have fit : faultyState.world.IsOpen ⟨"bucket", []⟩ ["D.js"] := ⟨rfl, rfl, fun _ => rfl⟩
  have history : BuildHistory Storage.disk (Storage.IsOpen ⟨"bucket", []⟩ ["D.js"]) [mutualProject]
      faultyState := .start fit rfl
  exact BuildHistory.buildBy_accounts (b := bucketBuilder) rooted_mutualProject history
    (Builder.pathwise_objects ⟨"bucket", []⟩ false rfl rfl ["D.js"]) rfl
    (c := mutualProject) rfl rfl rfl

end ScriptBuild
