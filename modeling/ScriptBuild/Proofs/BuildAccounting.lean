import ScriptBuild.Proofs.EmissionSteps

/-! What a build accounts for. -/

namespace ScriptBuild

open List Diagnostic

open LinkOrder

namespace Workspace

variable {w later : Workspace} {d : Disk} {p : ProjectId} {id : UnitId} {u v : CompilationUnit}
  {tree : SyntaxResult}

theorem exists_hasTree (found : w.tree? id = some tree) : ∃ u, w.HasTree id u tree := by
  obtain ⟨u, unit, cell⟩ := Option.bind_eq_some_iff.mp found
  cases parsed : u.cell with
  | idle | started =>
    rw [parsed] at cell
    cases cell
  | finished result =>
    rw [parsed] at cell
    exact ⟨u, unit, parsed.trans (congrArg _ (Option.some.inj cell))⟩

theorem currentDependencies_startParse (w : Workspace) (d : Disk) (id : UnitId) :
    (w.startParse d id).currentDependencies = w.currentDependencies := by
  funext j
  unfold currentDependencies
  rw [unit?_startParse]
  cases w.unit? j with
  | none => rfl
  | some u => by_cases same : id = j <;> simp [same]

structure Parses (w later : Workspace) : Prop where
  sound : later.Sound
  grows : w.Grows later
  dependencies : later.currentDependencies = w.currentDependencies

theorem Sound.parses_refl (sound : w.Sound) : w.Parses w := ⟨sound, .refl w, rfl⟩

theorem Parses.startParse (parses : w.Parses later) (free : ∀ path, d.isHeld path = false) (id : UnitId) :
    w.Parses (later.startParse d id) :=
  ⟨parses.sound.startParse free id, parses.grows.trans (.startParse later d id),
    (currentDependencies_startParse later d id).trans parses.dependencies⟩

theorem Parses.trans {middle : Workspace} (first : w.Parses middle) (second : middle.Parses later) : w.Parses later :=
  ⟨second.sound, first.grows.trans second.grows, second.dependencies.trans first.dependencies⟩

/-- What a build is to do: the units that its root reaches in link order, and which of them are emitted. -/
structure Plans (w : Workspace) (p : ProjectId) (root : UnitId) (plan : BuildPlan) : Prop where
  start : plan.root = root
  order : ∃ dropped, IsLinkOrder w.currentDependencies [root] plan.reachable dropped
  emitted : plan.emitted = plan.reachable.filter fun id => (w.unit? id).any (·.isEmittable)
  members : ∀ id ∈ plan.reachable, w.IsMember p id

theorem Sound.plan (sound : w.Sound) (free : ∀ path, d.isHeld path = false)
    (rooted : ∀ c ∈ w.projects, c.Rooted) {root : UnitId} (mem : w.IsMember p root) :
    ∃ plan ds later, w.plan d false root = (some (plan, ds), later) ∧ later.Sound ∧ w.Grows later ∧
      later.Plans p root plan ∧ hasErrors ds = false := by
  obtain ⟨t, later, reaches, last⟩ := exists_reaches sound.wellFormed sound.described sound.ready rooted
    free (forall_mem_singleton.mpr mem) Sound sound fun x id good => good.dependencies free false id
  have members : ∀ id ∈ t.done.reverse, later.IsMember p id :=
    fun id inside => (reaches.complete id (mem_reverse.mp inside)).1
  exact ⟨_, _, later, reaches.plan_eq, last, reaches.grows, ⟨rfl, ⟨_, reaches.order⟩, rfl, members⟩,
    last.warnings_events _⟩

variable {root : UnitId} {plan : BuildPlan} (plans : w.Plans p root plan)

include plans

theorem Plans.parses (parses : w.Parses later) : later.Plans p root plan := by
  refine ⟨plans.start, parses.dependencies.symm ▸ plans.order, ?_, fun id inside => ?_⟩
  · rw [plans.emitted]
    refine filter_congr fun id inside => ?_
    obtain ⟨u, found, _⟩ := plans.members id inside
    obtain ⟨v, next, kept⟩ := parses.grows.unit found
    simp [found, next, CompilationUnit.isEmittable, kept.spec]
  · exact parses.grows.isMember (plans.members id inside)

theorem Plans.mem_reachable (mem : id ∈ plan.emitted) : id ∈ plan.reachable := by
  rw [plans.emitted] at mem
  exact (mem_filter.mp mem).1

end Workspace

namespace Builder

variable {σ : Type} {b : Builder σ} {usable : σ → Prop} {result : Text → Except WriteError Unit}
  {w later : Workspace} {s : BuildState σ} {id : UnitId}

/-- Whether nothing is wrong with the tree and the bodies of a unit, and its artifact can be written. -/
def isClean (b : Builder σ) (result : Text → Except WriteError Unit) (w : Workspace) (id : UnitId) : Bool :=
  (w.unit? id).any fun u => (w.tree? id).any fun tree =>
    !tree.hasErrors && tree.file.functionBodies.all (fun body => !hasErrors body.parse.2) &&
      (result (b.place u)).isOk

end Builder

/-- What the outcome of a unit with a given tree says. -/
structure UnitOutcome.Tells (clean : UnitId → Bool) (id : UnitId) (path : Text) (tree : SyntaxResult)
    (o : UnitOutcome) : Prop where
  artifact : o.artifact.map (·.unit) = Option.guard clean id
  failed : o.artifact = none → ¬ tree.hasErrors → ∃ d ∈ o.diagnostics, d.isError ∧ d.file = path
  quiet : o.artifact.isSome → hasErrors o.diagnostics = false

namespace Builder

variable {σ : Type} {b : Builder σ} {usable : σ → Prop} {result : Text → Except WriteError Unit}
  {w later : Workspace} {s : BuildState σ} {id : UnitId} {u v : CompilationUnit} {tree : SyntaxResult}

theorem isClean_eq (b : Builder σ) (result : Text → Except WriteError Unit) (has : w.HasTree id u tree)
    (sound : w.Sound) :
    b.isClean result w id = (!tree.hasErrors && !hasErrors (parseBodies tree.file.emittedFunctions).2 &&
        (result (b.place u)).isOk) := by
  have ofFile := has.isOf sound
  simp [isClean, has.found, has.tree?_eq, ofFile.hasErrors_bodies, not_any_eq_all_not]

/-- A unit that is read to the end is told of as its bodies and its artifact turned out. -/
theorem tells_verdict (sound : w.Sound) (has : w.HasTree id u tree) (fine : tree.hasErrors = false)
    {r : Reading} (unit : r.unit = u) (reports : r.diagnostics = (parseBodies tree.file.emittedFunctions).2) :
    (b.verdict result w id r).Tells (b.isClean result w) id u.path tree := by
  have clean := isClean_eq b result has sound
  have ofFile := has.isOf sound
  rw [← reports, ← unit] at clean
  unfold verdict
  split
  · rename_i failed
    refine ⟨?_, fun _ _ => ?_, fun written => ?_⟩
    · simp [Option.guard, clean, failed]
    · obtain ⟨d, mem, error⟩ := hasErrors_iff.mp failed
      exact ⟨d, mem, error, ofFile.file_of_bodies (reports ▸ mem)⟩
    · cases written
  · rename_i passed
    simp only [Bool.not_eq_true] at passed
    unfold written
    split
    · rename_i stored
      refine ⟨?_, fun absent => ?_, fun _ => passed⟩
      · simp [clean, fine, passed, stored, Except.toBool]
      · cases absent
    · rename_i e refused
      refine ⟨?_, fun _ _ => ⟨_, mem_append_right _ mem_cons_self, rfl, ?_⟩, fun written => ?_⟩
      · simp [Option.guard, clean, refused, Except.toBool]
      · rw [← unit]
        rfl
      · cases written

theorem tells_emitUnit (sound : w.Sound) (pathwise : b.Pathwise usable result) (active : b.canceled = false)
    (shares : s.Shares usable w) (has : w.HasTree id u tree) :
    (b.emitUnit s id).1.Tells (b.isClean result w) id u.path tree := by
  rw [(emitUnit_spec_of_hasTree sound pathwise active shares has).1]
  by_cases wrong : tree.hasErrors
  · rw [if_pos wrong]
    refine ⟨?_, fun _ fine => absurd wrong fine, fun written => ?_⟩
    · simp [Option.guard, isClean_eq b result has sound, wrong]
    · cases written
  · rw [if_neg wrong]
    exact tells_verdict sound has (Bool.not_eq_true _ ▸ wrong) rfl rfl

/-- Nothing that comes later makes a unit with a tree clean, or takes that back. -/
theorem isClean_grows (has : w.HasTree id u tree) (grown : w.Grows later) :
    b.isClean result later id = b.isClean result w id := by
  obtain ⟨v, next, kept⟩ := has.grows grown
  have here : b.place v = b.place u := by rw [place, kept.spec, place]
  simp [isClean, has.found, next.found, has.tree?_eq, next.tree?_eq, here]

end Builder

/-- How the artifacts and the reports of a build make up for the units of its plan. -/
structure BuildResult.Accounts {σ : Type} (b : Builder σ) (result : Text → Except WriteError Unit)
    (w : Workspace) (r : BuildResult) : Prop where
  order : ∃ dropped, IsLinkOrder w.currentDependencies [r.plan.root] r.plan.reachable dropped
  emitted : r.plan.emitted = r.plan.reachable.filter fun id => (w.unit? id).any (·.isEmittable)
  artifacts : r.artifacts.map (·.unit) = r.plan.emitted.filter (b.isClean result w)
  reported : ∀ id ∈ r.plan.emitted, id ∉ r.artifacts.map (·.unit) →
    ∃ d ∈ r.diagnostics, d.isError ∧ d.file = w.unitPath id
  success : r.isSuccess = false ↔ (∃ id ∈ r.plan.reachable, (w.tree? id).any (·.hasErrors)) ∨
      ∃ id ∈ r.plan.emitted, id ∉ r.artifacts.map (·.unit)
  count : r.artifacts.length + r.report.skippedCount = r.plan.emitted.length

namespace BuildResult

variable {σ : Type} {b : Builder σ} {result : Text → Except WriteError Unit} {w : Workspace} {r : BuildResult}
  {p : ProjectId} {root : UnitId} {f : UnitId → UnitOutcome} {ds : List Diagnostic}

section Telling

variable (trees : ∀ id ∈ r.plan.reachable, ∃ u tree, w.HasTree id u tree)
  (plans : w.Plans p root r.plan) (outcomes : r.outcomes = r.plan.emitted.map f)
  (tells : ∀ id ∈ r.plan.emitted, ∀ u tree, w.HasTree id u tree → (f id).Tells (b.isClean result w) id u.path tree)
  (fine : hasErrors ds = false)
  (reports : r.diagnostics = ds ++ (r.plan.reachable.flatMap fun id => ((w.tree? id).map (·.diagnostics)).getD []) ++
      r.outcomes.flatMap (·.diagnostics))

include trees plans tells outcomes in
theorem artifacts_eq_filter : r.artifacts.map (·.unit) = r.plan.emitted.filter (b.isClean result w) := by
  rw [artifacts, outcomes, filterMap_map, map_filterMap, ← filterMap_eq_filter]
  refine filterMap_congr fun id mem => ?_
  obtain ⟨u, tree, has⟩ := trees id (plans.mem_reachable mem)
  exact (tells id mem u tree has).artifact

include trees plans tells outcomes in
theorem artifact_eq_none {id : UnitId} (mem : id ∈ r.plan.emitted)
    (absent : id ∉ r.artifacts.map (·.unit)) : (f id).artifact = none := by
  obtain ⟨u, tree, has⟩ := trees id (plans.mem_reachable mem)
  have same := (tells id mem u tree has).artifact
  rw [artifacts_eq_filter trees plans outcomes tells] at absent
  have failed : b.isClean result w id = false := by
    cases clean : b.isClean result w id with
    | false => rfl
    | true => exact absurd (mem_filter.mpr ⟨mem, clean⟩) absent
  simpa [Option.guard, failed] using same

include outcomes reports in
theorem mem_diagnostics_iff {d : Diagnostic} : d ∈ r.diagnostics ↔
    d ∈ ds ∨ (∃ id ∈ r.plan.reachable, ∃ tree, w.tree? id = some tree ∧ d ∈ tree.diagnostics) ∨
      ∃ id ∈ r.plan.emitted, d ∈ (f id).diagnostics := by
  have ofTree : ∀ id, d ∈ ((w.tree? id).map (·.diagnostics)).getD [] ↔
      ∃ tree, w.tree? id = some tree ∧ d ∈ tree.diagnostics := by
    intro id
    cases w.tree? id <;> simp
  rw [reports, outcomes]
  simp [ofTree]

include trees plans tells outcomes reports in
theorem exists_error {id : UnitId} (mem : id ∈ r.plan.emitted) (absent : id ∉ r.artifacts.map (·.unit))
    (sound : w.Sound) : ∃ d ∈ r.diagnostics, d.isError ∧ d.file = w.unitPath id := by
  have reachable := plans.mem_reachable mem
  obtain ⟨u, tree, has⟩ := trees id reachable
  rw [Workspace.unitPath_of_unit? has.found]
  by_cases wrong : tree.hasErrors
  · obtain ⟨d, reported, error⟩ := hasErrors_iff.mp wrong
    have listed := (mem_diagnostics_iff outcomes reports).mpr
      (.inr (.inl ⟨id, reachable, tree, has.tree?_eq, reported⟩))
    exact ⟨d, listed, error, (has.isOf sound).reports d reported⟩
  · have none := artifact_eq_none trees plans outcomes tells mem absent
    obtain ⟨d, reported, error, here⟩ := (tells id mem u tree has).failed none wrong
    have listed := (mem_diagnostics_iff outcomes reports).mpr (.inr (.inr ⟨id, mem, reported⟩))
    exact ⟨d, listed, error, here⟩

include trees plans tells outcomes fine reports in
/-- A build fails exactly by trees with errors and by units without artifacts. -/
theorem isSuccess_eq_false_iff (sound : w.Sound) : r.isSuccess = false ↔
    (∃ id ∈ r.plan.reachable, (w.tree? id).any (·.hasErrors)) ∨
      ∃ id ∈ r.plan.emitted, id ∉ r.artifacts.map (·.unit) := by
  have listed := fun d => mem_diagnostics_iff (d := d) outcomes reports
  rw [isSuccess, Bool.not_eq_false', hasErrors_iff]
  constructor
  · rintro ⟨d, mem, error⟩
    rcases (listed d).mp mem with
      planned | ⟨id, reachable, tree, parsed, reported⟩ | ⟨id, emitted, reported⟩
    · have clean := any_eq_false.mp fine d planned
      exact absurd error clean
    · have wrong : tree.hasErrors := hasErrors_iff.mpr ⟨d, reported, error⟩
      exact .inl ⟨id, reachable, by simp [parsed, wrong]⟩
    · refine .inr ⟨id, emitted, fun written => ?_⟩
      obtain ⟨u, tree, has⟩ := trees id (plans.mem_reachable emitted)
      have told := tells id emitted u tree has
      rw [artifacts_eq_filter trees plans outcomes tells] at written
      have some : (f id).artifact.isSome := by
        rw [← Option.isSome_map, told.artifact]
        simp [(mem_filter.mp written).2]
      have quiet := told.quiet some
      rw [hasErrors_iff.mpr ⟨d, reported, error⟩] at quiet
      cases quiet
  · rintro (⟨id, reachable, wrong⟩ | ⟨id, emitted, absent⟩)
    · obtain ⟨tree, parsed, wrong⟩ := (Option.any_eq_true _ _).mp wrong
      obtain ⟨d, reported, error⟩ := hasErrors_iff.mp wrong
      exact ⟨d, (listed d).mpr (.inr (.inl ⟨id, reachable, tree, parsed, reported⟩)), error⟩
    · obtain ⟨d, mem, error, _⟩ := exists_error trees plans outcomes tells reports emitted absent sound
      exact ⟨d, mem, error⟩

end Telling

theorem length_artifacts_add (r : BuildResult) :
    r.artifacts.length + r.outcomes.countP (·.artifact.isNone) = r.outcomes.length := by
  rw [artifacts, length_filterMap_eq_countP, length_eq_countP_add_countP (·.artifact.isSome)]
  refine congrArg _ (countP_congr fun o _ => ?_)
  cases o.artifact <;> simp

end BuildResult

end ScriptBuild
