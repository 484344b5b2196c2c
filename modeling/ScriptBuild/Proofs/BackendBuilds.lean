import ScriptBuild.Proofs.BodyWalks
import ScriptBuild.Proofs.ScheduledBuilds

/-! Builds by both backends. -/

namespace ScriptBuild

open List Workspace Diagnostic

variable {r : BuildResult} {plan : BuildPlan}

namespace Workspace

variable {w : Workspace} {id : UnitId}

def IsSettled (w : Workspace) (id : UnitId) : Prop := ∀ u, w.unit? id = some u → u.cell ≠ .idle

theorem IsSettled.startParse_eq (settled : w.IsSettled id) (d : Disk) : w.startParse d id = w := by
  unfold startParse
  cases found : w.unit? id with
  | none => rfl
  | some u =>
    cases cell : u.cell with
    | idle => exact absurd cell (settled u found)
    | started | finished tree => simp [cell]

theorem isSettled_startParse (w : Workspace) (d : Disk) (id : UnitId) : (w.startParse d id).IsSettled id := by
  intro u found
  rw [unit?_startParse] at found
  obtain ⟨v, _, rfl⟩ := Option.map_eq_some_iff.mp found
  rw [if_pos rfl, CompilationUnit.parsed]
  split
  · split <;> exact fun same => by cases same
  · rename_i cell
    rw [cell]
    exact fun same => by cases same
  · rename_i cell
    rw [cell]
    exact fun same => by cases same

theorem IsSettled.startParse (settled : w.IsSettled id) (d : Disk) (j : UnitId) : (w.startParse d j).IsSettled id := by
  by_cases same : j = id
  · exact same ▸ w.isSettled_startParse d j
  · intro u found
    rw [unit?_startParse] at found
    simp only [same, if_false, Option.map_id'] at found
    exact settled u found

/-- After the reports of trees were asked for, no unit among them waits. -/
theorem isSettled_treeDiagnostics (d : Disk) (ids : List UnitId) :
    ∀ (w : Workspace) (id : UnitId), w.IsSettled id ∨ id ∈ ids → (Builder.treeDiagnostics w d ids).2.IsSettled id := by
  induction ids with
  | nil =>
    rintro w id (settled | absent)
    · exact settled
    · cases absent
  | cons j ids ih =>
    intro w id known
    have step : (Builder.treeDiagnostics w d (j :: ids)).2 = (Builder.treeDiagnostics (w.startParse d j) d ids).2 := by
      rw [← w.tree_snd d false j]
      rfl
    rw [step]
    rcases known with settled | inside
    · exact ih _ id (.inl (settled.startParse d j))
    · rcases mem_cons.mp inside with rfl | later
      · exact ih _ id (.inl (w.isSettled_startParse d id))
      · exact ih _ id (.inr later)

/-- What is wrong with the bodies of a settled unit, and the workspace in which they have been resolved. -/
def readBodies (w : Workspace) (canceled : Bool) (id : UnitId) : List Diagnostic × Workspace :=
  match w.unit? id, (w.tree {} canceled id).1 with
  | some _, some tree =>
    if tree.hasErrors then ([], w)
    else
      let read := w.bodies.resolveAll id tree.version tree.file.emittedFunctions
      (read.1.2, { w with bodies := read.2 })
  | _, _ => ([], w)

theorem unit?_readBodies (w : Workspace) (canceled : Bool) (id j : UnitId) :
    (w.readBodies canceled id).2.unit? j = w.unit? j := by
  unfold readBodies
  split
  · split <;> rfl
  · rfl

def readAllBodies (w : Workspace) (canceled : Bool) : List UnitId → List Diagnostic × Workspace
  | [] => ([], w)
  | id :: ids =>
    let first := w.readBodies canceled id
    let rest := first.2.readAllBodies canceled ids
    (first.1 ++ rest.1, rest.2)

end Workspace

namespace Diagnostic

theorem hasErrors_append (ds es : List Diagnostic) : hasErrors (ds ++ es) = (hasErrors ds || hasErrors es) :=
  any_append

end Diagnostic

namespace Builder

variable {σ : Type} {b : Builder σ} {s : BuildState σ} {id : UnitId}

/-- The emission of a settled unit: it has its tree already, and its bodies are resolved before its text is written. -/
theorem emitUnit_of_settled (settled : s.workspace.IsSettled id) : b.emitUnit s id =
    b.emitParsed s id (s.workspace.unit? id) (s.workspace.tree {} b.canceled id).1 := by
  have same : s.workspace.tree (b.diskOf s.world) b.canceled id = s.workspace.tree {} b.canceled id := by
    rw [tree, tree, settled.startParse_eq, settled.startParse_eq]
  rw [emitUnit_eq, settled.startParse_eq, same]

/-- A unit is reported for its bodies, and for its artifact if that cannot be written. -/
theorem emitUnit_eq_readBodies (settled : s.workspace.IsSettled id) :
    (b.emitUnit s id).2.workspace = (s.workspace.readBodies b.canceled id).2 ∧
      hasErrors (b.emitUnit s id).1.diagnostics =
        (hasErrors (s.workspace.readBodies b.canceled id).1 || (b.emitUnit s id).1.isWriteFailure) := by
  rw [emitUnit_of_settled settled, readBodies]
  cases s.workspace.unit? id with
  | none => exact ⟨rfl, rfl⟩
  | some u =>
    cases (s.workspace.tree {} b.canceled id).1 with
    | none => exact ⟨rfl, rfl⟩
    | some tree =>
      simp only [emitParsed]
      split
      · exact ⟨rfl, rfl⟩
      · simp only [readRest, conclude, nil_append]
        split
        · exact ⟨rfl, (Bool.or_false _).symm⟩
        · unfold writeArtifact
          dsimp only
          split
          · exact ⟨rfl, (Bool.or_false _).symm⟩
          · exact ⟨rfl, hasErrors_append _ _⟩

theorem isSettled_emitUnit (settled : s.workspace.IsSettled id) {j : UnitId} (other : s.workspace.IsSettled j) :
    (b.emitUnit s id).2.workspace.IsSettled j := by
  intro u found
  rw [(emitUnit_eq_readBodies settled).1, unit?_readBodies] at found
  exact other u found

/-- Units are reported for their bodies, one after another, and for artifacts that cannot be written. -/
theorem emitUnits_eq_readAllBodies (ids : List UnitId) : ∀ s : BuildState σ, (∀ id ∈ ids, s.workspace.IsSettled id) →
      hasErrors ((b.emitUnits s ids).1.flatMap (·.diagnostics)) =
        (hasErrors (s.workspace.readAllBodies b.canceled ids).1 ||
          (b.emitUnits s ids).1.any (·.isWriteFailure)) := by
  induction ids with
  | nil => exact fun _ _ => rfl
  | cons id ids ih =>
    intro s settled
    obtain ⟨here, others⟩ := forall_mem_cons.mp settled
    obtain ⟨next, errors⟩ := emitUnit_eq_readBodies here
    have rest := ih (b.emitUnit s id).2 fun j inside => isSettled_emitUnit here (others j inside)
    rw [next] at rest
    rw [emitUnits, readAllBodies]
    rw [flatMap_cons, hasErrors_append, hasErrors_append, any_cons, errors, rest]
    simp [Bool.or_assoc, Bool.or_left_comm]

end Builder

theorem Workspace.mem_reachable_of_plan {w later : Workspace} {d : Disk} {canceled : Bool} {root id : UnitId}
    {ds : List Diagnostic} (answer : w.plan d canceled root = (some (plan, ds), later))
    (mem : id ∈ plan.emitted) : id ∈ plan.reachable := by
  unfold Workspace.plan at answer
  split at answer
  · cases answer
  · cases answer
    exact (mem_filter.mp mem).1

namespace BuildResult

def failedWrites (r : BuildResult) : List UnitId := (r.outcomes.filter (·.isWriteFailure)).map (·.unit)

theorem any_isWriteFailure_iff (r : BuildResult) :
    r.outcomes.any (·.isWriteFailure) = false ↔ ∀ id, id ∉ r.failedWrites := by
  rw [any_eq_false]
  constructor
  · intro none id mem
    obtain ⟨o, inside, _⟩ := mem_map.mp mem
    obtain ⟨inside, failed⟩ := mem_filter.mp inside
    exact none o inside failed
  · intro none o inside failed
    exact none o.unit (mem_map_of_mem (mem_filter.mpr ⟨inside, failed⟩))

end BuildResult

namespace Builder

variable {σ τ : Type} {b : Builder σ} {c : Builder τ} {s : BuildState σ} {t : BuildState τ} {path : Text}

/-- What is found to be wrong with a plan apart from the output: on the way to it, in trees and in bodies. -/
def findings (w : Workspace) (d : Disk) (canceled : Bool) (plan : BuildPlan) (ds : List Diagnostic) : List Diagnostic :=
  let trees := treeDiagnostics w d plan.reachable
  ds ++ trees.1 ++ (trees.2.readAllBodies canceled plan.emitted).1

/-- A plan is carried out with success if nothing is wrong with it and all artifacts are written. -/
theorem isSuccess_execute_iff (b : Builder σ) (s : BuildState σ) (root : UnitId)
    (inside : ∀ id ∈ plan.emitted, id ∈ plan.reachable) (ds : List Diagnostic) :
    (b.execute s root plan ds).1.isSuccess ↔
      hasErrors (findings s.workspace (b.diskOf s.world) b.canceled plan ds) = false ∧
        ∀ id, id ∉ (b.execute s root plan ds).1.failedWrites := by
  have settled := isSettled_treeDiagnostics (b.diskOf s.world) plan.reachable s.workspace
  have emitted := emitUnits_eq_readAllBodies (b := b) plan.emitted
    ⟨(treeDiagnostics s.workspace (b.diskOf s.world) plan.reachable).2, s.world⟩
    fun id mem => settled id (.inr (inside id mem))
  have reports : (b.execute s root plan ds).1.diagnostics =
      ds ++ (treeDiagnostics s.workspace (b.diskOf s.world) plan.reachable).1 ++
        (b.execute s root plan ds).1.outcomes.flatMap (·.diagnostics) := rfl
  have outcomes : (b.execute s root plan ds).1.outcomes = (b.emitUnits
      ⟨(treeDiagnostics s.workspace (b.diskOf s.world) plan.reachable).2, s.world⟩ plan.emitted).1 := rfl
  rw [← BuildResult.any_isWriteFailure_iff, BuildResult.isSuccess, Bool.not_eq_true', reports, outcomes,
    ← Bool.or_eq_false_iff]
  simp [findings, hasErrors_append, emitted, Bool.or_assoc]

def Succeeds (b : Builder σ) (s : BuildState σ) (path : Text) : Prop := ∃ r, (b.build s path).1 = .ok r ∧ r.isSuccess

/-- Two builds of a project from the same workspace and the same files, whose outputs can both be prepared or neither.
-/
structure StartsLike (b : Builder σ) (s : BuildState σ) (c : Builder τ) (t : BuildState τ) : Prop where
  project : b.project = c.project
  canceled : b.canceled = c.canceled
  workspace : s.workspace = t.workspace
  files : b.diskOf s.world = c.diskOf t.world
  output : (b.writer.prepare s.world).1.isOk = (c.writer.prepare t.world).1.isOk
  prepared : (b.writer.prepare s.world).1.isOk →
    b.diskOf (b.writer.prepare s.world).2 = c.diskOf (c.writer.prepare t.world).2

theorem StartsLike.symm (like : b.StartsLike s c t) : c.StartsLike t b s :=
  ⟨like.project.symm, like.canceled.symm, like.workspace.symm, like.files.symm, like.output.symm,
    fun ok => (like.prepared (like.output.trans ok)).symm⟩

theorem StartsLike.exists_execute (like : b.StartsLike s c t) (built : (b.build s path).1 = .ok r) :
    ∃ root plan ds planned,
      let start : BuildState σ := ⟨planned, (b.writer.prepare s.world).2⟩
      let start' : BuildState τ := ⟨planned, (c.writer.prepare t.world).2⟩
      (∀ id ∈ plan.emitted, id ∈ plan.reachable) ∧ b.diskOf start.world = c.diskOf start'.world ∧
        r = (b.execute start root plan ds).1 ∧ (c.build t path).1 = .ok (c.execute start' root plan ds).1 := by
  obtain ⟨root, w, world, plan, ds, planned, requested, prepared, answer, active, run⟩ :=
    build_eq_ok_iff.mp (Prod.ext built rfl)
  have ok : (b.writer.prepare s.world).1.isOk := by rw [prepared]; rfl
  have files := like.prepared ok
  have prepared' : c.writer.prepare t.world = (.ok (), (c.writer.prepare t.world).2) := by
    have also := like.output.symm.trans ok
    generalize c.writer.prepare t.world = preparation at also
    obtain ⟨outcome, world'⟩ := preparation
    cases outcome with
    | ok done => rfl
    | error e => cases also
  rw [prepared] at files
  refine ⟨root, plan, ds, planned, fun id => mem_reachable_of_plan answer, ?_, ?_, congrArg Prod.fst
    (build_eq_ok_iff.mpr ⟨root, w, _, plan, ds, planned, ?_, prepared', ?_, like.canceled.symm.trans active, rfl⟩)⟩
  · rw [prepared, files]
  · rw [prepared, run]
  · rw [← like.workspace, ← like.project, ← like.files, requested]
  · rw [← files, ← like.canceled, answer]

theorem StartsLike.succeeds (like : b.StartsLike s c t)
    (alike : ∀ r r', (b.build s path).1 = .ok r → (c.build t path).1 = .ok r' →
      ∀ id, id ∈ r.failedWrites ↔ id ∈ r'.failedWrites) (done : b.Succeeds s path) : c.Succeeds t path := by
  obtain ⟨r, built, success⟩ := done
  obtain ⟨root, plan, ds, planned, inside, files, rfl, built'⟩ := like.exists_execute built
  obtain ⟨fine, written⟩ := (b.isSuccess_execute_iff _ root inside ds).mp success
  refine ⟨_, built', (c.isSuccess_execute_iff _ root inside ds).mpr ⟨?_, fun id failed => ?_⟩⟩
  · rwa [← like.canceled, ← files]
  · exact written id ((alike _ _ built built' id).mpr failed)

/-- Writers that fail for the same units when they are called one after the other, in worlds that correspond. -/
structure FailsLike (b : Builder σ) (c : Builder τ) (related : σ → τ → Prop) : Prop where
  prepare : ∀ x y, related x y → related (b.writer.prepare x).2 (c.writer.prepare y).2
  write : ∀ x y name text text', related x y →
    let first := b.writer.write x (artifactPath b.settings.backend.subdir name b.settings.backend.extension) text
    let second := c.writer.write y (artifactPath c.settings.backend.subdir name c.settings.backend.extension) text'
    first.1.isOk = second.1.isOk ∧ related first.2 second.2

theorem StartsLike.succeeds_iff (like : b.StartsLike s c t)
    (alike : ∀ r r', (b.build s path).1 = .ok r → (c.build t path).1 = .ok r' →
      ∀ id, id ∈ r.failedWrites ↔ id ∈ r'.failedWrites) : b.Succeeds s path ↔ c.Succeeds t path :=
  ⟨like.succeeds alike, like.symm.succeeds fun r r' built built' id => (alike r' r built' built id).symm⟩

section Lockstep

variable {related : σ → τ → Prop} (fails : b.FailsLike c related) (canceled : b.canceled = c.canceled)

include fails

theorem FailsLike.writeArtifact {x : σ} {y : τ} (start : related x y) (w : Workspace) (id : UnitId)
    (u : CompilationUnit) (text text' : Text) (ds : List Diagnostic) :
    let first := b.writeArtifact ⟨w, x⟩ id u text ds
    let second := c.writeArtifact ⟨w, y⟩ id u text' ds
    (first.1.isWriteFailure = second.1.isWriteFailure ∧ first.1.unit = second.1.unit) ∧
      related first.2.world second.2.world := by
  obtain ⟨same, next⟩ := fails.write x y u.spec.name text text' start
  unfold Builder.writeArtifact
  dsimp only
  generalize b.writer.write x _ text = first at same next
  generalize c.writer.write y _ text' = second at same next
  obtain ⟨outcome, x'⟩ := first
  obtain ⟨outcome', y'⟩ := second
  cases outcome <;> cases outcome'
  · exact ⟨⟨rfl, rfl⟩, next⟩
  · cases same
  · cases same
  · exact ⟨⟨rfl, rfl⟩, next⟩

include canceled

theorem FailsLike.emitUnit (workspace : s.workspace = t.workspace) (start : related s.world t.world) {id : UnitId}
    (settled : s.workspace.IsSettled id) :
    ((b.emitUnit s id).1.isWriteFailure = (c.emitUnit t id).1.isWriteFailure ∧
      (b.emitUnit s id).1.unit = (c.emitUnit t id).1.unit) ∧
        related (b.emitUnit s id).2.world (c.emitUnit t id).2.world := by
  rw [emitUnit_of_settled settled, emitUnit_of_settled (workspace ▸ settled), canceled]
  obtain ⟨w, x⟩ := s
  obtain ⟨_, y⟩ := t
  cases workspace
  unfold emitParsed
  dsimp only
  split
  · split
    · exact ⟨⟨rfl, rfl⟩, start⟩
    · unfold readRest conclude
      dsimp only
      split
      · exact ⟨⟨rfl, rfl⟩, start⟩
      · exact fails.writeArtifact start _ id _ _ _ _
  · exact ⟨⟨rfl, rfl⟩, start⟩

theorem FailsLike.emitUnits (ids : List UnitId) :
    ∀ {s : BuildState σ} {t : BuildState τ}, s.workspace = t.workspace → related s.world t.world →
      (∀ id ∈ ids, s.workspace.IsSettled id) →
      ((b.emitUnits s ids).1.filter (·.isWriteFailure)).map (·.unit) =
        ((c.emitUnits t ids).1.filter (·.isWriteFailure)).map (·.unit) := by
  induction ids with
  | nil => exact fun _ _ _ => rfl
  | cons id ids ih =>
    intro s t workspace start settled
    obtain ⟨here, others⟩ := forall_mem_cons.mp settled
    obtain ⟨⟨failure, unit⟩, next⟩ := fails.emitUnit canceled workspace start here
    have after : (b.emitUnit s id).2.workspace = (c.emitUnit t id).2.workspace := by
      rw [(emitUnit_eq_readBodies here).1, (emitUnit_eq_readBodies (workspace ▸ here)).1, workspace, canceled]
    have rest := ih after next fun j inside => isSettled_emitUnit here (others j inside)
    rw [Builder.emitUnits, Builder.emitUnits, filter_cons, filter_cons, failure]
    split
    · rw [map_cons, map_cons, unit, rest]
    · exact rest

omit canceled in
theorem FailsLike.failedWrites_eq (like : b.StartsLike s c t) (start : related s.world t.world)
    {r' : BuildResult} (built : (b.build s path).1 = .ok r) (built' : (c.build t path).1 = .ok r') :
    r.failedWrites = r'.failedWrites := by
  obtain ⟨root, plan, ds, planned, inside, files, rfl, same⟩ := like.exists_execute built
  cases same.symm.trans built'
  have settled := isSettled_treeDiagnostics (b.diskOf (b.writer.prepare s.world).2) plan.reachable planned
  refine fails.emitUnits like.canceled plan.emitted ?_ (fails.prepare _ _ start) fun id mem =>
    settled id (.inr (inside id mem))
  exact congrArg (fun d => (treeDiagnostics planned d plan.reachable).2) files

end Lockstep

end Builder

/-- Both backends accept the same programs. A walk resolves each function body once by either, with the same reports,
and builds whose writers fail alike succeed or fail together. -/
theorem walks_alike_and_succeeds_iff {σ τ : Type} :
    (∀ (kind : UnitKind) (path content : Text) (script module : EmitContext) (cache : BodyCache) (unit version : Nat),
      let file := (kind.parse path content).1
      let js := JavaScript.walk { script with file } cache unit version
      let ts := TypeScript.walk { module with file } cache unit version
      js.Completes JavaScript.file { script with file } cache unit version ∧
        ts.Completes TypeScript.file { module with file } cache unit version ∧
        js.resolved = ts.resolved ∧ js.diagnostics = ts.diagnostics ∧ js.cache = ts.cache) ∧
      ∀ (js : Builder σ) (ts : Builder τ) (s : BuildState σ) (t : BuildState τ) (path : Text), js.StartsLike s ts t →
        ((∀ r r', (js.build s path).1 = .ok r → (ts.build t path).1 = .ok r' →
            ∀ id, id ∈ r.failedWrites ↔ id ∈ r'.failedWrites) → (js.Succeeds s path ↔ ts.Succeeds t path)) ∧
          ∀ related, js.FailsLike ts related → related s.world t.world →
            (js.Succeeds s path ↔ ts.Succeeds t path) := by
  refine ⟨fun kind path content script module cache unit version => ?_, fun js ts s t path like => ?_⟩
  · have first := JavaScript.completes_walk (c := { script with file := (kind.parse path content).1 }) rfl cache unit
      version
    have second := TypeScript.completes_walk (c := { module with file := (kind.parse path content).1 }) rfl cache unit
      version
    exact ⟨first, second, first.order.trans second.order.symm, first.reports.trans second.reports.symm,
      first.kept.trans second.kept.symm⟩
  · refine ⟨like.succeeds_iff, fun related fails start => like.succeeds_iff fun r r' built built' id => ?_⟩
    rw [fails.failedWrites_eq like start built built']

structure Quota where
  disk : Disk
  room : Nat

def Quota.writer : Writer Quota where
  prepare q := (.ok (), q)
  write q path _ :=
    match q.room with
    | 0 => (.error (.store ("put " ++ path) "quota exceeded"), q)
    | room + 1 => (.ok (), { q with room })

def quotaBuilder (backend : Backend) : Builder Quota :=
  { project := 0
    settings := { backend, outputRoot := [], values := [] }
    writer := Quota.writer
    diskOf := Quota.disk }

def quotaState : BuildState Quota := ⟨Workspace.fresh [Workspace.mutualProject] {}, ⟨faultyFiles, 1⟩⟩

theorem failsLike_quotaBuilder (backend other : Backend) :
    (quotaBuilder backend).FailsLike (quotaBuilder other) fun x y => x.room = y.room := by
  refine ⟨fun x y same => same, fun x y name text text' same => ?_⟩
  obtain ⟨disk, room⟩ := x
  obtain ⟨disk', room'⟩ := y
  subst same
  cases room <;> exact ⟨rfl, rfl⟩

theorem succeeds_iff_quotaState :
    (∀ r r', ((quotaBuilder .javascript).build quotaState "/src/A.kn").1 = .ok r →
        ((quotaBuilder .typescript).build quotaState "/src/A.kn").1 = .ok r' → r.failedWrites = r'.failedWrites) ∧
      ((quotaBuilder .javascript).Succeeds quotaState "/src/A.kn" ↔
        (quotaBuilder .typescript).Succeeds quotaState "/src/A.kn") := by
  have fails := failsLike_quotaBuilder .javascript .typescript
  have like : (quotaBuilder .javascript).StartsLike quotaState (quotaBuilder .typescript) quotaState :=
    ⟨rfl, rfl, rfl, rfl, rfl, fun _ => rfl⟩
  have same : ∀ r r', ((quotaBuilder .javascript).build quotaState "/src/A.kn").1 = .ok r →
      ((quotaBuilder .typescript).build quotaState "/src/A.kn").1 = .ok r' → r.failedWrites = r'.failedWrites :=
    fun r r' built built' => fails.failedWrites_eq like rfl built built'
  refine ⟨same, (walks_alike_and_succeeds_iff.2 _ _ _ _ _ like).1 fun r r' built built' id => ?_⟩
  rw [same r r' built built']

end ScriptBuild
