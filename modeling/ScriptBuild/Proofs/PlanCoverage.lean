import ScriptBuild.Proofs.BuildAccounting
import ScriptBuild.Proofs.IncrementalBuild

/-! What the plan of a build covers. -/

namespace ScriptBuild

open List Option Workspace ProjectConfig

open LinkOrder Relation

variable {ref : Reference} {paths : List Text} {u : CompilationUnit} {tree : SyntaxResult}

namespace ProjectConfig

variable {c : ProjectConfig} {d : Disk} {self path : Text} {f : SourceFile}

/-- Every target is one that some reference leads to. -/
theorem exists_find_of_mem_targets (mem : path ∈ (c.links d self f).targets) :
    ∃ ref ∈ f.references, c.find d f ref = .unit path := by
  have step : ∀ (refs : List Reference) (l : Links), path ∈ (c.linksFrom d self f l refs).targets →
      path ∈ l.targets ∨ ∃ ref ∈ refs, c.find d f ref = .unit path := by
    intro refs
    induction refs with
    | nil => exact fun l inside => .inl inside
    | cons ref refs ih =>
      intro l inside
      rcases ih (l.add self ref.line (c.find d f ref)) inside with added | ⟨other, later, found⟩
      · cases found : c.find d f ref with
        | missing message | builtIn =>
          rw [found] at added
          exact .inl added
        | unit target =>
          rw [found, Links.add] at added
          split at added
          · exact .inl added
          · refine (mem_append.mp added).imp_right fun new => ⟨ref, mem_cons_self, ?_⟩
            rw [found, mem_singleton.mp new]
      · exact .inr ⟨other, mem_cons_of_mem ref later, found⟩
  exact (step f.references {} mem).resolve_left not_mem_nil

end ProjectConfig

namespace Workspace

variable {w later : Workspace} {d : Disk} {p : ProjectId} {c : ProjectConfig} {projects : List ProjectConfig}
  {contents : Text → Prop} {id target : UnitId} {plan : BuildPlan} {ds : List Diagnostic}

section Search

variable (valid : w.Valid projects contents d []) (config : projects[p]? = some c)

include valid config

theorem Valid.project?_eq : w.project? p = some c := by rw [project?, valid.projects, config]

/-- A search ends at a unit if and only if it ends at its path. -/
theorem Valid.firstUnit_eq_some_iff (mem : w.IsMember p id) (searched : ∀ path ∈ paths, c.Searches path) :
    (w.firstUnit d p paths).1 = some id ↔ c.locate d paths = some (w.unitPath id) := by
  have project := valid.project?_eq config
  have more := firstUnit_opens project d searched
  obtain ⟨u, found, own⟩ := mem
  have place := more.grows.registry (valid.placed id u found).1
  rw [own, ← unitPath_of_unit? found] at place
  rcases firstUnit_leads valid.described project d paths with
    ⟨hidden, absent⟩ | ⟨path, other, located, present, there⟩
  · simp [hidden, absent]
  · rw [located, present, some.injEq, some.injEq]
    constructor
    · rintro rfl
      obtain ⟨v, next, _, same⟩ := (more.wellFormed valid.wellFormed).registered there
      rw [← same, ← unitPath_of_unit? next, more.grows.unitPath found]
    · rintro rfl
      exact some.inj (there.symm.trans place)

theorem Valid.resolve_eq_some_iff (mem : w.IsMember p id) (qname : Text) :
    (w.resolve d p qname).1 = some id ↔ c.locate d (c.candidates qname) = some (w.unitPath id) := by
  have project := valid.project?_eq config
  rw [resolve_eq project]
  exact valid.firstUnit_eq_some_iff config mem fun _ => searches_of_candidate

end Search

/-- The unit that a reference leads to: a resource by its path, any other one by its qualified name. -/
def targetOf (w : Workspace) (d : Disk) (p : ProjectId) (c : ProjectConfig) (f : SourceFile) (ref : Reference) :
    Option UnitId :=
  if ref.kind = .resource then (w.resolveResource d p ref.name).1
  else (w.resolve d p (c.qualifiedName f ref.name)).1

section Targets

variable {f : SourceFile} (valid : w.Valid projects contents d []) (config : projects[p]? = some c)

include valid config

theorem Valid.targetOf_eq : w.targetOf d p c f ref = (w.firstUnit d p (c.searchPaths f ref)).1 := by
  have project := valid.project?_eq config
  rw [targetOf, searchPaths, resolveResource_eq project, resolve_eq project]
  by_cases resource : ref.kind = .resource <;> simp [resource]

theorem Valid.targetOf_eq_some_iff (mem : w.IsMember p id) :
    w.targetOf d p c f ref = some id ↔ c.find d f ref = .unit (w.unitPath id) := by
  rw [valid.targetOf_eq config, find_eq_unit_iff]
  exact valid.firstUnit_eq_some_iff config mem fun _ => searches_of_mem_searchPaths

/-- What a reference leads to is at a path that it leads to. -/
theorem Valid.exists_find_of_targetOf (found : w.targetOf d p c f ref = some target) :
    ∃ path, c.find d f ref = .unit path := by
  rw [valid.targetOf_eq config] at found
  rcases firstUnit_leads valid.described (valid.project?_eq config) d (c.searchPaths f ref) with
    ⟨_, absent⟩ | ⟨path, _, located, _⟩
  · rw [absent] at found
    cases found
  · exact ⟨path, find_eq_unit_iff.mpr located⟩

end Targets

/-- Whether some name leads to a unit. -/
def IsNamed (w : Workspace) (d : Disk) (p : ProjectId) (id : UnitId) : Prop :=
  ∃ qname, (w.resolve d p qname).1 = some id

/-- Whether a planned file names a unit as a resource. -/
def IsResourceOf (w : Workspace) (d : Disk) (p : ProjectId) (plan : BuildPlan) (id : UnitId) : Prop :=
  ∃ t u tree ref, t ∈ plan.reachable ∧ w.HasTree t u tree ∧ ref ∈ tree.file.references ∧
    ref.kind = .resource ∧ (w.resolveResource d p ref.name).1 = some id

def IsReferred (w : Workspace) (d : Disk) (p : ProjectId) (c : ProjectConfig) (plan : BuildPlan) (id : UnitId) : Prop :=
  ∃ t u tree ref, t ∈ plan.reachable ∧ w.HasTree t u tree ∧ ref ∈ tree.file.references ∧
    w.targetOf d p c tree.file ref = some id

/-- A plan of a project: its root, and all that references lead to from there. A unit stands after what it
depends on, or there is a warning. -/
structure Covers (w : Workspace) (p : ProjectId) (plan : BuildPlan) (ds : List Diagnostic) : Prop where
  known : ∀ u ∈ plan.reachable, w.IsMember p u ∧ (w.recorded u).isSome
  nodup : plan.reachable.Nodup
  emitted : plan.emitted = plan.reachable.filter fun u => (w.unit? u).any (·.isEmittable)
  started : plan.root ∈ plan.reachable
  reached : ∀ u ∈ plan.reachable, u = plan.root ∨ ∃ t ∈ plan.reachable, u ∈ w.currentDependencies t
  linked : ∀ u ∈ plan.reachable, ∀ t ∈ w.currentDependencies u, t ∈ plan.reachable ∧
    (Precedes plan.reachable t u ∨ w.cycleWarning u t ∈ ds)

theorem Reaches.covers {root : UnitId} {t : Traversal UnitId} (reaches : w.Reaches d p [root] t later) :
    later.Covers p ⟨root, t.done.reverse, t.done.reverse.filter fun u => (later.unit? u).any (·.isEmittable)⟩
      (t.events.reverse.flatMap later.eventDiagnostics) := by
  have order := reaches.order
  refine ⟨fun u mem => reaches.complete u (mem_reverse.mp mem), order.nodup, rfl, ?_, ?_, ?_⟩
  · exact (order.mem_iff root).mpr ⟨root, mem_singleton_self root, .refl⟩
  · intro u mem
    obtain ⟨r, start, way⟩ := (order.mem_iff u).mp mem
    rw [mem_singleton.mp start] at way
    rcases way.cases_tail with same | ⟨v, before, edge⟩
    · exact .inl same
    · exact .inr ⟨v, (order.mem_iff v).mpr ⟨root, mem_singleton_self root, before⟩, edge⟩
  · intro u mem v edge
    refine ⟨mem_reverse.mpr (reaches.closed u (mem_reverse.mp mem) v edge), ?_⟩
    by_cases first : Precedes t.done.reverse v u
    · exact .inl first
    · have lost := (order.dropped_iff u mem v edge).mpr first
      obtain ⟨event, happened, same⟩ := mem_filterMap.mp (mem_reverse.mp lost)
      refine .inr (mem_flatMap.mpr ⟨event, mem_reverse.mpr happened, ?_⟩)
      cases event with
      | entered x => cases same
      | dropped x y =>
        cases same
        exact mem_singleton_self _

namespace Covers

section

variable (covers : w.Covers p plan ds)

include covers

theorem mem_reachable (mem : id ∈ plan.emitted) : id ∈ plan.reachable := by
  rw [covers.emitted] at mem
  exact (mem_filter.mp mem).1

theorem mono {more : List Diagnostic} (subset : ds ⊆ more) : w.Covers p plan more :=
  { covers with
    linked := fun u mem t edge =>
      (covers.linked u mem t edge).imp_right fun order => order.imp_right fun warned => subset warned }

/-- What a plan covers stays as it is while the workspace grows. -/
theorem grows (grown : w.Grows later) : later.Covers p plan ds := by
  have same : ∀ u ∈ plan.reachable, later.currentDependencies u = w.currentDependencies u := by
    intro u mem
    obtain ⟨known, recorded⟩ := isSome_iff_exists.mp (covers.known u mem).2
    rw [currentDependencies_of_recorded recorded, currentDependencies_of_recorded (grown.recorded recorded)]
  have shown : ∀ u ∈ plan.reachable, later.displayName u = w.displayName u ∧ later.unitPath u = w.unitPath u := by
    intro u mem
    obtain ⟨v, found, _⟩ := (covers.known u mem).1
    obtain ⟨x, next, kept⟩ := grown.unit found
    simp [displayName, CompilationUnit.displayName, unitPath, found, next, kept.path, kept.spec]
  refine ⟨fun u mem => ?_, covers.nodup, ?_, covers.started, fun u mem => ?_, fun u mem t edge => ?_⟩
  · obtain ⟨own, recorded⟩ := covers.known u mem
    obtain ⟨known, recorded⟩ := isSome_iff_exists.mp recorded
    exact ⟨grown.isMember own, isSome_iff_exists.mpr ⟨known, grown.recorded recorded⟩⟩
  · rw [covers.emitted]
    refine filter_congr fun u mem => ?_
    obtain ⟨v, found, _⟩ := (covers.known u mem).1
    obtain ⟨x, next, kept⟩ := grown.unit found
    simp [found, next, CompilationUnit.isEmittable, kept.spec]
  · rcases covers.reached u mem with root | ⟨t, inside, edge⟩
    · exact .inl root
    · rw [← same t inside] at edge
      exact .inr ⟨t, inside, edge⟩
  · rw [same u mem] at edge
    obtain ⟨inside, order⟩ := covers.linked u mem t edge
    refine ⟨inside, order.imp_right fun warned => ?_⟩
    have still : later.cycleWarning u t = w.cycleWarning u t := by
      simp [cycleWarning, shown u mem, shown t inside]
    rwa [still]

theorem isMember (mem : id ∈ plan.reachable) : w.IsMember p id :=
  (covers.known id mem).1

theorem exists_hasTree (ok : w.WellFormed) (mem : id ∈ plan.reachable) :
    ∃ u tree, w.HasTree id u tree ∧ u.project = p := by
  obtain ⟨⟨u, found, own⟩, recorded⟩ := covers.known id mem
  obtain ⟨known, recorded⟩ := isSome_iff_exists.mp recorded
  obtain ⟨v, same, current, _⟩ := recorded_eq_some recorded
  obtain rfl := Option.mem_unique found same
  obtain ⟨tree, finished⟩ := (ok.unit found).tree current
  exact ⟨u, tree, ⟨found, finished⟩, own⟩

end

section Valid

variable (covers : w.Covers p plan ds) (valid : w.Valid projects contents d []) (config : projects[p]? = some c)

include covers valid config

/-- The dependencies of a planned unit are where the references of its tree lead. -/
theorem targets_eq (mem : id ∈ plan.reachable) (has : w.HasTree id u tree) :
    (w.currentDependencies id).map w.unitPath = (c.links d (w.unitPath id) tree.file).targets := by
  obtain ⟨own, recorded⟩ := covers.known id mem
  rw [(valid.linksAt config own recorded).1, linksAt, ← valid.source config own has]

/-- What a reference of a planned file leads to is the file itself, or it is planned: before the file, or with a
warning. -/
theorem resolved (mem : id ∈ plan.reachable) (has : w.HasTree id u tree)
    (inside : ref ∈ tree.file.references) (found : w.targetOf d p c tree.file ref = some target) :
    target = id ∨ target ∈ plan.reachable ∧ (Precedes plan.reachable target id ∨ w.cycleWarning id target ∈ ds) := by
  have own := covers.isMember mem
  obtain ⟨path, leads⟩ := valid.exists_find_of_targetOf config found
  by_cases itself : path = w.unitPath id
  · rw [itself, ← valid.targetOf_eq_some_iff config own] at leads
    exact .inl (some.inj (found.symm.trans leads))
  · have edge := mem_targets_of_find inside leads itself
    rw [← covers.targets_eq valid config mem has] at edge
    obtain ⟨t, depends, rfl⟩ := mem_map.mp edge
    obtain ⟨planned, order⟩ := covers.linked id mem t depends
    rw [← valid.targetOf_eq_some_iff config (covers.isMember planned)] at leads
    rw [some.inj (found.symm.trans leads)]
    exact .inr ⟨planned, order⟩

/-- The planned units are the root and what the references of planned files lead to. -/
theorem mem_reachable_iff : id ∈ plan.reachable ↔ id = plan.root ∨ w.IsReferred d p c plan id := by
  constructor
  · intro mem
    refine (covers.reached id mem).imp_right fun ⟨t, planned, edge⟩ => ?_
    obtain ⟨u, tree, has, _⟩ := covers.exists_hasTree valid.wellFormed planned
    have target := mem_map_of_mem (f := w.unitPath) edge
    rw [covers.targets_eq valid config planned has] at target
    obtain ⟨ref, inside, found⟩ := exists_find_of_mem_targets target
    rw [← valid.targetOf_eq_some_iff config (covers.isMember mem)] at found
    exact ⟨t, u, tree, ref, planned, has, inside, found⟩
  · rintro (rfl | ⟨t, u, tree, ref, planned, has, inside, found⟩)
    · exact covers.started
    · rcases covers.resolved valid config planned has inside found with rfl | ⟨mem, _⟩
      · exact planned
      · exact mem

/-- A planned unit is the root, or a name or the path of a resource leads to it. -/
theorem reached_by (mem : id ∈ plan.reachable) : id = plan.root ∨ w.IsNamed d p id ∨ w.IsResourceOf d p plan id := by
  refine ((covers.mem_reachable_iff valid config).mp mem).imp_right ?_
  rintro ⟨t, u, tree, ref, planned, has, inside, found⟩
  rw [targetOf] at found
  split at found
  · rename_i resource
    exact .inr ⟨t, u, tree, ref, planned, has, inside, resource, found⟩
  · exact .inl ⟨_, found⟩

end Valid

end Covers

end Workspace

namespace Builder

variable {σ : Type} {b : Builder σ} {usable : σ → Prop} {projects : List ProjectConfig} {contents : Text → Prop}
  {s last : BuildState σ} {c : ProjectConfig} {root : UnitId} {path : Text} {r : BuildResult}

theorem keeps_grows (b : Builder σ) (w : Workspace) :
    b.Keeps fun x => x.workspace.WellFormed ∧ x.workspace.Described ∧ w.Grows x.workspace where
  request _ _ := fun ⟨ok, known, grown⟩ =>
    ⟨ok.request b.project _, known.request b.project _, grown.trans (.request _ b.project _)⟩
  parse _ id := fun ⟨ok, known, grown⟩ =>
    ⟨ok.startParse _ id, known.startParse _ id, grown.trans (.startParse _ _ id)⟩
  resolve _ canceled id := fun ⟨ok, known, grown⟩ => by
    obtain ⟨next, still, more⟩ := dependencies_grows ok known _ canceled id
    exact ⟨next, still, grown.trans more⟩
  bodies _ cache := fun ⟨⟨keys, registered, unit, project, targets, indexed⟩, known, grown⟩ =>
    ⟨⟨keys, registered, unit, project, targets, indexed⟩, known, grown.trans (.withBodies _ cache)⟩
  prepare _ := fun good => good
  write _ _ _ := fun good => good

theorem execute_covers {plan : BuildPlan} {ds : List Diagnostic} (ok : s.workspace.WellFormed)
    (known : s.workspace.Described) (covers : s.workspace.Covers b.project plan ds) (root : UnitId) :
    (b.execute s root plan ds).2.workspace.Covers b.project (b.execute s root plan ds).1.plan
      (b.execute s root plan ds).1.diagnostics := by
  obtain ⟨_, _, grown⟩ := (b.keeps_grows s.workspace).execute ⟨ok, known, .refl _⟩ root plan ds
  refine (covers.grows grown).mono fun x mem => ?_
  exact mem_append_left _ (mem_append_left _ mem)

theorem build_covers (valid : s.IsValid b.diskOf usable projects contents [])
    (spares : b.Spares usable projects) (rooted : ∀ c ∈ projects, c.Rooted)
    (done : b.build s path = (.ok r, last)) :
    last.IsValid b.diskOf usable projects contents [] ∧
      last.workspace.Covers b.project r.plan r.diagnostics ∧ ∃ c, projects[b.project]? = some c := by
  have final := (build_spec valid spares rooted path).1
  have start := (valid.withWorkspace (valid.workspace.request b.project path)).withWorld
    (spares.prepare s.world valid.world)
  have known := request_fst valid.workspace.described b.project ((b.diskOf s.world).absolute path)
  rw [done] at final
  obtain ⟨root, w, world, plan, ds, planned, requested, prepared, answer, active, run⟩ := build_eq_ok_iff.mp done
  rw [requested] at start known
  rw [prepared] at start
  obtain ⟨_, _, same, place⟩ := known.resolve_right fun hidden => by cases hidden.2
  cases same
  obtain ⟨u, found, own, _⟩ := start.workspace.wellFormed.registered place
  obtain ⟨c, config⟩ := start.workspace.wellFormed.project found
  rw [own, project?, start.workspace.projects] at config
  obtain ⟨t, later, reaches, _⟩ := exists_reaches start.workspace.wellFormed start.workspace.described
    start.workspace.ready (start.workspace.projects ▸ rooted) start.disk.free
    (forall_mem_singleton.mpr ⟨u, found, own⟩) (fun _ => True) trivial fun _ _ _ => trivial
  rw [active, reaches.plan_eq] at answer
  cases answer
  have covers := execute_covers (s := ⟨planned, world⟩) reaches.state.wellFormed reaches.state.described
    reaches.covers root
  rw [run] at covers
  exact ⟨final, covers, c, config⟩

/-- What a check finds in the result of a build. -/
theorem exists_build_of_check {P : BuildResult → BuildState σ → Prop} [∀ r last, Decidable (P r last)]
    (checked : (b.build s path).1.toOption.any fun r => P r (b.build s path).2) :
    ∃ r last, b.build s path = (.ok r, last) ∧ P r last := by
  generalize b.build s path = answer at checked ⊢
  obtain ⟨_ | r, last⟩ := answer
  · cases checked
  · exact ⟨r, last, rfl, of_decide_eq_true checked⟩

/-- What a check finds in the tree of a unit after a build. -/
theorem exists_tree_of_check (id : UnitId)
    {P : BuildResult → BuildState σ → SyntaxResult → Package → Reference → Prop}
    [∀ r last tree p ref, Decidable (P r last tree p ref)]
    (checked : (b.build s path).1.toOption.any fun r => ((b.build s path).2.workspace.tree? id).any fun tree =>
      tree.file.package.any fun p => tree.file.references.any fun ref => P r (b.build s path).2 tree p ref) :
    ∃ r last u tree p ref, b.build s path = (.ok r, last) ∧ last.workspace.HasTree id u tree ∧
      tree.file.package = some p ∧ ref ∈ tree.file.references ∧ P r last tree p ref := by
  generalize b.build s path = answer at checked ⊢
  obtain ⟨_ | r, last⟩ := answer
  · cases checked
  · simp only [Except.toOption, Option.any_some, Option.any_eq_true, List.any_eq_true, decide_eq_true_eq] at checked
    obtain ⟨tree, found, p, package, ref, inside, holds⟩ := checked
    obtain ⟨u, has⟩ := exists_hasTree found
    exact ⟨r, last, u, tree, p, ref, rfl, has, package, inside, holds⟩

variable (valid : s.IsValid b.diskOf usable projects contents []) (spares : b.Spares usable projects)
  (rooted : ∀ c ∈ projects, c.Rooted)

include valid spares rooted

/-- What a build gives is what its files give, however far beyond them it looks. -/
theorem build_eq_cleanFrom (config : projects[b.project]? = some c) (done : b.build s path = (.ok r, last)) :
    ∃ depth, ∀ more, b.cleanFrom c (depth + more) (b.writer.prepare s.world).2 ((b.diskOf s.world).absolute path) =
        (r.view last.workspace, last.world) := by
  obtain ⟨_, _, _, _, _, _, _, _, _, active, _⟩ := build_eq_ok_iff.mp done
  obtain ⟨depth, same⟩ := (build_spec valid spares rooted path).2 active
  refine ⟨depth, fun more => ?_⟩
  have view : b.clean projects (depth + more) s.world path = (.ok (r.view last.workspace), last.world) := by
    rw [← same more, outcome, done]
    rfl
  simp only [clean, config] at view
  split at view
  · cases view
  · split at view
    · cases view
    · rename_i prepared
      injection view with answer world
      injection answer with same
      rw [prepared]
      exact Prod.ext same world

end Builder

section FreshWorkspace

variable {c : ProjectConfig} {d : Disk}

def bucketBuilderWith (settings : Settings) : Builder Storage := { bucketBuilder with settings }

def freshState (c : ProjectConfig) (d : Disk) : BuildState Storage := ⟨Workspace.fresh [c] {}, { disk := d }⟩

theorem spares_bucketBuilderWith (settings : Settings) (projects : List ProjectConfig) :
    (bucketBuilderWith settings).Spares (fun _ => True) projects :=
  Builder.spares_objects ⟨"bucket", []⟩ false rfl rfl projects

theorem session_freshState {contents : Text → Prop} (free : ∀ path, d.isHeld path = false)
    (held : ∀ x ∈ d.entries.map (·.2.content), contents x) :
    Session Storage.disk (fun _ => True) [c] contents [] (freshState c d) :=
  .start trivial (Disk.suits_of_entries free [c] held) rfl

end FreshWorkspace

end ScriptBuild
