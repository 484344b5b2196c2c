import Mathlib.Data.List.Nodup
import ScriptBuild.Project.Plan

/-! Workspaces that are well formed. -/

namespace ScriptBuild

open List Option Workspace CompilationUnit

variable {u v : CompilationUnit} {r : SyntaxResult} {ds : List UnitId} {xs : List Diagnostic}
  {w later : Workspace} {p q : ProjectId} {id j : UnitId}

namespace CompilationUnit

/-- What holds of every unit by itself. -/
structure WellFormed (u : CompilationUnit) : Prop where
  unique : u.dependencies.Nodup
  kinds : ∀ x ∈ u.dependencyDiagnostics, x.kind = .unresolved
  recorded : ∀ v, u.resolvedVersion = some v → v ≤ u.version
  tree : u.isResolved → ∃ r, u.cell = .finished r
  version : ∀ r, u.cell = .finished r → r.version = u.version

/-- A later state of a unit of which nothing was dropped in between. -/
structure Keeps (u later : CompilationUnit) : Prop where
  project : later.project = u.project
  path : later.path = u.path
  spec : later.spec = u.spec
  version : later.version = u.version
  tree : ∀ r, u.cell = .finished r → later.cell = .finished r
  resolved : u.isResolved → later.isResolved ∧ later.dependencies = u.dependencies ∧
    later.dependencyDiagnostics = u.dependencyDiagnostics

theorem Keeps.refl (u : CompilationUnit) : u.Keeps u :=
  ⟨rfl, rfl, rfl, rfl, fun _ found => found, fun current => ⟨current, rfl, rfl⟩⟩

theorem Keeps.trans {a b c : CompilationUnit} (first : a.Keeps b) (second : b.Keeps c) : a.Keeps c := by
  refine ⟨second.project.trans first.project, second.path.trans first.path,
    second.spec.trans first.spec, second.version.trans first.version,
    fun r found => second.tree r (first.tree r found), fun current => ?_⟩
  obtain ⟨still, targets, diagnostics⟩ := first.resolved current
  obtain ⟨stays, later, warnings⟩ := second.resolved still
  exact ⟨stays, later.trans targets, warnings.trans diagnostics⟩

def parsed (d : Disk) (u : CompilationUnit) : CompilationUnit :=
  match u.cell with
  | .idle =>
    { u with
      cell := if d.isHeld u.path then .started else .finished (Workspace.parseUnit d u u.version).1 }
  | .started | .finished _ => u

def resolvedTo (dependencies : List UnitId) (diagnostics : List Diagnostic) (u : CompilationUnit) : CompilationUnit :=
  { u with
    dependencies
    dependencyDiagnostics := diagnostics
    resolvedVersion := some u.version }

theorem version_parseUnit (d : Disk) (u : CompilationUnit) (version : Nat) :
    (parseUnit d u version).1.version = version := by
  unfold parseUnit
  split <;> rfl

theorem keeps_parsed (d : Disk) (u : CompilationUnit) : u.Keeps (u.parsed d) := by
  unfold parsed
  split
  · rename_i idle
    refine ⟨rfl, rfl, rfl, rfl, fun r found => ?_, fun current => ⟨current, rfl, rfl⟩⟩
    rw [idle] at found
    cases found
  all_goals exact Keeps.refl u

theorem WellFormed.parsed (ok : u.WellFormed) (d : Disk) : (u.parsed d).WellFormed := by
  unfold CompilationUnit.parsed
  split
  · rename_i idle
    refine ⟨ok.unique, ok.kinds, ok.recorded, fun current => ?_, fun r found => ?_⟩
    · obtain ⟨r, found⟩ := ok.tree current
      rw [idle] at found
      cases found
    · dsimp only at found
      split at found
      · cases found
      · cases found
        rw [version_parseUnit]
  all_goals exact ok

@[simp] theorem dependencies_parsed (d : Disk) (u : CompilationUnit) : (u.parsed d).dependencies = u.dependencies := by
  unfold parsed
  split <;> rfl

@[simp] theorem isResolved_parsed (d : Disk) (u : CompilationUnit) : (u.parsed d).isResolved = u.isResolved := by
  unfold parsed
  split <;> rfl

theorem isResolved_resolvedTo (u : CompilationUnit) (ds : List UnitId) (xs : List Diagnostic) :
    (u.resolvedTo ds xs).isResolved := by
  simp [resolvedTo, isResolved]

theorem WellFormed.resolvedTo (ok : u.WellFormed) (tree : u.cell = .finished r) (unique : ds.Nodup)
    (kinds : ∀ x ∈ xs, x.kind = .unresolved) : (u.resolvedTo ds xs).WellFormed :=
  ⟨unique, kinds, fun v same => by injection same with same; exact same ▸ Nat.le_refl _, fun _ => ⟨r, tree⟩, ok.version⟩

/-- A later state of a unit for which nothing was recorded in between. -/
structure Ages (u later : CompilationUnit) : Prop where
  project : later.project = u.project
  path : later.path = u.path
  spec : later.spec = u.spec
  version : u.version ≤ later.version
  dependencies : later.dependencies = u.dependencies
  resolvedVersion : later.resolvedVersion = u.resolvedVersion

theorem Ages.refl (u : CompilationUnit) : u.Ages u := ⟨rfl, rfl, rfl, Nat.le_refl _, rfl, rfl⟩

theorem Ages.trans {a b c : CompilationUnit} (first : a.Ages b) (second : b.Ages c) : a.Ages c :=
  ⟨second.project.trans first.project, second.path.trans first.path, second.spec.trans first.spec,
    Nat.le_trans first.version second.version, second.dependencies.trans first.dependencies,
    second.resolvedVersion.trans first.resolvedVersion⟩

theorem ages_parsed (d : Disk) (u : CompilationUnit) : u.Ages (u.parsed d) := by
  unfold parsed
  split
  · exact ⟨rfl, rfl, rfl, Nat.le_refl _, rfl, rfl⟩
  all_goals exact Ages.refl u

def withCell (version : Nat) (cell : SyntaxCell) (u : CompilationUnit) : CompilationUnit :=
  if u.version == version then { u with cell } else u

theorem ages_withCell (version : Nat) (cell : SyntaxCell) (u : CompilationUnit) : u.Ages (u.withCell version cell) := by
  unfold withCell
  split
  · exact ⟨rfl, rfl, rfl, Nat.le_refl _, rfl, rfl⟩
  · exact Ages.refl u

theorem ages_invalidated (u : CompilationUnit) : u.Ages u.invalidated :=
  ⟨rfl, rfl, rfl, Nat.le_succ _, rfl, rfl⟩

/-- What is current was current before, since a record is never ahead of its unit. -/
theorem Ages.isResolved (aged : u.Ages v) (recorded : ∀ n, u.resolvedVersion = some n → n ≤ u.version)
    (current : v.isResolved) : u.isResolved := by
  simp only [CompilationUnit.isResolved, beq_iff_eq, aged.resolvedVersion] at current ⊢
  have behind := recorded _ current
  have ahead := aged.version
  rw [current, Nat.le_antisymm behind ahead]

end CompilationUnit

namespace Workspace

def IsRegistered (w : Workspace) (id : UnitId) (u : CompilationUnit) : Prop :=
  w.unit? id = some u ∧ w.lookup u.project u.path = some id

structure WellFormed (w : Workspace) : Prop where
  keys : (w.registry.map (·.1)).Nodup
  registered : ∀ {p path id}, w.lookup p path = some id → ∃ u, w.unit? id = some u ∧ u.project = p ∧ u.path = path
  unit : ∀ {id u}, w.unit? id = some u → u.WellFormed
  project : ∀ {id u}, w.unit? id = some u → ∃ c, w.project? u.project = some c
  targets : ∀ {id u}, w.unit? id = some u → ∀ d ∈ u.dependencies, ∃ v, w.unit? d = some v ∧ v.project = u.project
  indexed : ∀ e ∈ w.dependents, e.1 < w.pool.length ∧ e.2 < w.pool.length

/-- Whether the registry, the index and the versions of records are in order, whatever is recorded. -/
structure Filed (w : Workspace) : Prop where
  keys : (w.registry.map (·.1)).Nodup
  registered : ∀ {p path id}, w.lookup p path = some id → ∃ u, w.unit? id = some u ∧ u.project = p ∧ u.path = path
  recorded : ∀ {id u}, w.unit? id = some u → ∀ v, u.resolvedVersion = some v → v ≤ u.version
  indexed : ∀ e ∈ w.dependents, e.1 < w.pool.length ∧ e.2 < w.pool.length

theorem WellFormed.filed (ok : w.WellFormed) : w.Filed :=
  ⟨ok.keys, ok.registered, fun found => (ok.unit found).recorded, ok.indexed⟩

/-- Whether every unit is where its project expects one. -/
def Described (w : Workspace) : Prop :=
  ∀ p path id, w.lookup p path = some id → (w.describe p path).isSome

/-- A later workspace in which nothing was dropped. -/
structure Grows (w later : Workspace) : Prop where
  projects : later.projects = w.projects
  registry : ∀ {p path id}, w.lookup p path = some id → later.lookup p path = some id
  unit : ∀ {id u}, w.unit? id = some u → ∃ u', later.unit? id = some u' ∧ u.Keeps u'

theorem Grows.refl (w : Workspace) : w.Grows w :=
  ⟨rfl, fun found => found, fun found => ⟨_, found, .refl _⟩⟩

theorem Grows.trans {a b c : Workspace} (first : a.Grows b) (second : b.Grows c) : a.Grows c := by
  refine ⟨second.projects.trans first.projects, fun found => second.registry (first.registry found), fun found => ?_⟩
  obtain ⟨v, next, kept⟩ := first.unit found
  obtain ⟨x, last, still⟩ := second.unit next
  exact ⟨x, last, kept.trans still⟩

theorem Grows.describe (grown : w.Grows later) (p : ProjectId) (path : Text) :
    later.describe p path = w.describe p path := by
  simp [Workspace.describe, project?, grown.projects]

theorem Grows.project? (grown : w.Grows later) (p : ProjectId) : later.project? p = w.project? p := by
  simp [Workspace.project?, grown.projects]

def fresh (projects : List ProjectConfig) (bodies : BodyCache) : Workspace := { projects, bodies }

theorem wellFormed_fresh (projects : List ProjectConfig) (bodies : BodyCache) : (fresh projects bodies).WellFormed := by
  refine ⟨nodup_nil, ?_, ?_, ?_, ?_, ?_⟩ <;> simp [fresh, lookup, unit?]

theorem described_fresh (projects : List ProjectConfig) (bodies : BodyCache) : (fresh projects bodies).Described := by
  intro p path id found
  cases found

theorem Described.of_registry (known : w.Described) (projects : later.projects = w.projects)
    (registry : later.registry = w.registry) : later.Described := by
  intro p path id found
  simp only [lookup, registry] at found
  simp only [describe, project?, projects]
  exact known p path id found

section Registry

variable {path : Text}

theorem lookup_of_mem (keys : (w.registry.map (·.1)).Nodup)
    (mem : ((p, path), id) ∈ w.registry) : w.lookup p path = some id := by
  obtain ⟨front, back, split⟩ := append_of_mem mem
  refine lookup_eq_some_iff.mpr ⟨front, back, split, fun e earlier => ?_⟩
  rw [split, map_append, nodup_append] at keys
  have other := keys.2.2 e.1 (mem_map_of_mem earlier) (p, path) mem_cons_self
  exact bne_iff_ne.mpr other.symm

theorem mem_of_lookup (found : w.lookup p path = some id) : ((p, path), id) ∈ w.registry := by
  obtain ⟨front, back, split, _⟩ := lookup_eq_some_iff.mp found
  rw [split]
  exact mem_append_right _ mem_cons_self

theorem Filed.isRegistered (filed : w.Filed) (found : w.lookup p path = some id) :
    ∃ u, w.IsRegistered id u ∧ u.project = p ∧ u.path = path := by
  obtain ⟨u, unit, project, path⟩ := filed.registered found
  exact ⟨u, ⟨unit, by rw [project, path]; exact found⟩, project, path⟩

/-- A unit is at one place only. -/
theorem WellFormed.place (ok : w.WellFormed) {path place : Text} (found : w.lookup p path = some id)
    (again : w.lookup q place = some id) : p = q ∧ path = place := by
  obtain ⟨u, unit, project, at'⟩ := ok.registered found
  obtain ⟨v, same, project', place'⟩ := ok.registered again
  obtain rfl := Option.mem_unique unit same
  exact ⟨project.symm.trans project', at'.symm.trans place'⟩

theorem lt_length_of_unit? (found : w.unit? id = some u) : id < w.pool.length :=
  (List.getElem?_eq_some_iff.mp found).1

end Registry

/-- A later workspace with the same units, for which nothing was recorded in between. -/
structure Ages (w later : Workspace) : Prop where
  registry : later.registry = w.registry
  dependents : later.dependents = w.dependents
  size : later.pool.length = w.pool.length
  unit : ∀ {id u}, w.unit? id = some u → ∃ u', later.unit? id = some u' ∧ u.Ages u'

namespace Ages

theorem refl (w : Workspace) : w.Ages w := ⟨rfl, rfl, rfl, fun found => ⟨_, found, .refl _⟩⟩

theorem trans {a b c : Workspace} (first : a.Ages b) (second : b.Ages c) : a.Ages c := by
  refine ⟨second.registry.trans first.registry, second.dependents.trans first.dependents,
    second.size.trans first.size, fun found => ?_⟩
  obtain ⟨v, next, aged⟩ := first.unit found
  obtain ⟨x, last, older⟩ := second.unit next
  exact ⟨x, last, aged.trans older⟩

theorem of_unit? (aged : w.Ages later) (found : later.unit? id = some u) : ∃ v, w.unit? id = some v ∧ v.Ages u := by
  have bound := lt_length_of_unit? found
  rw [aged.size] at bound
  obtain ⟨x, same, older⟩ := aged.unit (List.getElem?_eq_getElem bound)
  rw [found] at same
  exact ⟨_, List.getElem?_eq_getElem bound, Option.some.inj same ▸ older⟩

theorem lookup (aged : w.Ages later) : later.lookup = w.lookup := by
  funext p path
  rw [Workspace.lookup, aged.registry]
  rfl

end Ages

theorem Filed.ages (filed : w.Filed) (aged : w.Ages later) : later.Filed := by
  refine ⟨by rw [aged.registry]; exact filed.keys, fun found => ?_, fun found v recorded => ?_, ?_⟩
  · rw [aged.lookup] at found
    obtain ⟨u, unit, project, path⟩ := filed.registered found
    obtain ⟨v, next, older⟩ := aged.unit unit
    exact ⟨v, next, older.project.trans project, older.path.trans path⟩
  · obtain ⟨u, unit, older⟩ := aged.of_unit? found
    rw [older.resolvedVersion] at recorded
    exact Nat.le_trans (filed.recorded unit v recorded) older.version
  · rw [aged.dependents, aged.size]
    exact filed.indexed

section Update

variable {f : CompilationUnit → CompilationUnit}

theorem unit?_update (w : Workspace) (id : UnitId) (f : CompilationUnit → CompilationUnit) (j : UnitId) :
    (w.update id f).unit? j = (w.unit? j).map fun u => if id = j then f u else u :=
  getElem?_modify f id w.pool j

theorem unit?_update_self (found : w.unit? id = some u) (f : CompilationUnit → CompilationUnit) :
    (w.update id f).unit? id = some (f u) := by
  rw [unit?_update, found, map_some, if_pos rfl]

@[simp] theorem length_pool_update (w : Workspace) (id : UnitId)
    (f : CompilationUnit → CompilationUnit) : (w.update id f).pool.length = w.pool.length :=
  length_modify f w.pool id

theorem update_congr {g : CompilationUnit → CompilationUnit}
    (same : ∀ u, w.unit? id = some u → f u = g u) : w.update id f = w.update id g := by
  have pools : w.pool.modify id f = w.pool.modify id g := by
    refine ext_getElem? fun j => ?_
    rw [getElem?_modify, getElem?_modify]
    cases found : w.pool[j]? with
    | none => rfl
    | some u =>
      by_cases here : id = j
      · subst here
        simp [same u found]
      · simp [here]
  simp [update, pools]

theorem update_eq_self (same : ∀ u, w.unit? id = some u → f u = u) : w.update id f = w := by
  have pool : w.pool.modify id (fun u => u) = w.pool := by
    refine ext_getElem? fun j => ?_
    rw [getElem?_modify]
    simp
  rw [update_congr same]
  simp [update, pool]

theorem Grows.update (keeps : ∀ u, w.unit? id = some u → u.Keeps (f u)) : w.Grows (w.update id f) := by
  refine ⟨rfl, fun found => found, fun {j u} found => ?_⟩
  rw [unit?_update, found]
  refine ⟨_, rfl, ?_⟩
  split
  · rename_i here
    exact keeps u (here ▸ found)
  · exact .refl u

theorem Ages.update (older : ∀ u : CompilationUnit, u.Ages (f u)) (w : Workspace) (id : UnitId) : w.Ages (w.update id f) := by
  refine ⟨rfl, rfl, length_pool_update w id f, fun {j u} found => ?_⟩
  rw [unit?_update, found]
  refine ⟨_, rfl, ?_⟩
  split
  · exact older u
  · exact .refl u

theorem WellFormed.update (ok : w.WellFormed) (older : ∀ u : CompilationUnit, u.Ages (f u))
    (unit : ∀ u : CompilationUnit, u.WellFormed → (f u).WellFormed) (id : UnitId) : (w.update id f).WellFormed := by
  have aged := Ages.update older w id
  have filed := ok.filed.ages aged
  refine ⟨filed.keys, filed.registered, fun found => ?_, fun found => ?_, fun found d mem => ?_, filed.indexed⟩
  · rw [unit?_update] at found
    obtain ⟨u, old, rfl⟩ := map_eq_some_iff.mp found
    split
    · exact unit u (ok.unit old)
    · exact ok.unit old
  · obtain ⟨u, old, same⟩ := aged.of_unit? found
    exact same.project ▸ ok.project old
  · obtain ⟨u, old, same⟩ := aged.of_unit? found
    obtain ⟨v, target, near⟩ := ok.targets old d (same.dependencies ▸ mem)
    obtain ⟨x, next, kept⟩ := aged.unit target
    exact ⟨x, next, kept.project.trans (near.trans same.project.symm)⟩

end Update

section Parse

variable {d : Disk}

section

variable (w : Workspace) (d : Disk) (id : UnitId)

/-- Asking for the tree of a unit changes the unit and two counts. -/
theorem startParse_eq : ∃ parses waiting,
      w.startParse d id = { w.update id (parsed d) with parses, waiting } := by
  have still : (∀ v, w.unit? id = some v → v.parsed d = v) →
      ∃ parses waiting, w = { w.update id (parsed d) with parses, waiting } :=
    fun same => ⟨w.parses, w.waiting, by rw [update_eq_self same]⟩
  unfold startParse
  split
  · rename_i absent
    exact still fun v found => by cases absent.symm.trans found
  · rename_i u found
    have unit : ∀ v, w.unit? id = some v → v = u := fun v other => mem_unique other found
    split
    · rename_i started
      exact still fun v other => by simp [parsed, unit v other, started]
    · rename_i r finished
      exact still fun v other => by simp [parsed, unit v other, finished]
    · rename_i idle
      split
      · rename_i held
        have same : w.update id (parsed d) = w.update id fun u => { u with cell := .started } :=
          update_congr fun v other => by simp [parsed, unit v other, idle, held]
        exact ⟨w.parses, _, by rw [same]; rfl⟩
      · rename_i free
        have same : w.update id (parsed d) = w.update id fun v =>
            if v.version == u.version then { v with cell := .finished (parseUnit d u u.version).1 }
            else v :=
          update_congr fun v other => by simp [parsed, unit v other, idle, free]
        refine ⟨if (parseUnit d u u.version).2 then w.parses + 1 else w.parses, w.waiting, ?_⟩
        rw [same]
        simp only [finishParse, found]
        rfl

theorem unit?_startParse (j : UnitId) :
    (w.startParse d id).unit? j = (w.unit? j).map fun u => if id = j then u.parsed d else u := by
  obtain ⟨parses, waiting, same⟩ := w.startParse_eq d id
  rw [same]
  exact w.unit?_update id _ j

@[simp] theorem registry_startParse : (w.startParse d id).registry = w.registry := by
  obtain ⟨parses, waiting, same⟩ := w.startParse_eq d id
  rw [same]
  rfl

@[simp] theorem bodies_startParse : (w.startParse d id).bodies = w.bodies := by
  obtain ⟨parses, waiting, same⟩ := w.startParse_eq d id
  rw [same]
  rfl

@[simp] theorem projects_startParse : (w.startParse d id).projects = w.projects := by
  obtain ⟨parses, waiting, same⟩ := w.startParse_eq d id
  rw [same]
  rfl

theorem Grows.startParse : w.Grows (w.startParse d id) := by
  obtain ⟨parses, waiting, same⟩ := w.startParse_eq d id
  have grown : w.Grows (w.update id (parsed d)) :=
    .update fun u _ => u.keeps_parsed d
  rw [same]
  exact ⟨grown.projects, grown.registry, grown.unit⟩

end

theorem Described.startParse (known : w.Described) (d : Disk) (id : UnitId) : (w.startParse d id).Described :=
  known.of_registry (by simp) (by simp)

theorem WellFormed.startParse (ok : w.WellFormed) (d : Disk) (id : UnitId) : (w.startParse d id).WellFormed := by
  obtain ⟨parses, waiting, same⟩ := w.startParse_eq d id
  have kept : (w.update id (parsed d)).WellFormed :=
    ok.update (ages_parsed d) (fun _ ok => ok.parsed d) id
  rw [same]
  exact ⟨kept.keys, kept.registered, kept.unit, kept.project, kept.targets, kept.indexed⟩

theorem tree_snd (w : Workspace) (d : Disk) (canceled : Bool) (id : UnitId) :
    (w.tree d canceled id).2 = w.startParse d id := by
  unfold tree
  dsimp only
  split
  · rfl
  · split <;> rfl

/-- A tree that is returned is the one of the unit. -/
theorem tree_eq_some {canceled : Bool} (found : (w.tree d canceled id).1 = some r) :
    ∃ u, (w.startParse d id).unit? id = some u ∧ u.cell = .finished r := by
  unfold tree at found
  dsimp only at found
  split at found
  · cases found
  · split at found
    · rename_i unit
      cases found
      exact ⟨_, unit, rfl⟩
    · cases found

theorem tree_of_finished (found : (w.startParse d id).unit? id = some u) (finished : u.cell = .finished r) :
    (w.tree d false id).1 = some r := by
  obtain ⟨_, _, _, _, cell, _, _, _⟩ := u
  dsimp only at finished
  subst finished
  simp only [tree, found]
  rfl

theorem finishParse_eq (found : w.unit? id = some u) (d : Disk) (version : Nat) : w.finishParse d id version =
      { w.update id (withCell version (.finished (parseUnit d u version).1)) with
        parses := if (parseUnit d u version).2 then w.parses + 1 else w.parses } := by
  simp only [finishParse, found]
  rfl

namespace Ages

variable (w : Workspace) (d : Disk) (id : UnitId)

theorem startParse : w.Ages (w.startParse d id) := by
  obtain ⟨parses, waiting, same⟩ := w.startParse_eq d id
  have aged := update (ages_parsed d) w id
  rw [same]
  exact ⟨aged.registry, aged.dependents, aged.size, aged.unit⟩

theorem finishParse (version : Nat) : w.Ages (w.finishParse d id version) := by
  cases found : w.unit? id with
  | none =>
    simp only [Workspace.finishParse, found]
    exact .refl w
  | some u =>
    have aged : w.Ages (w.update id (withCell version (.finished (parseUnit d u version).1))) :=
      .update (fun v => v.ages_withCell version _) w id
    rw [finishParse_eq found]
    exact ⟨aged.registry, aged.dependents, aged.size, aged.unit⟩

theorem finishWaiting : w.Ages (w.finishWaiting d) := by
  have all : ∀ (tasks : List (UnitId × Nat)) (w : Workspace),
      w.Ages (tasks.foldl (fun w task => w.finishParse d task.1 task.2) w) := by
    intro tasks
    induction tasks with
    | nil => exact refl
    | cons task tasks ih => exact fun w => (finishParse w d task.1 task.2).trans (ih _)
  exact trans (b := { w with waiting := [] })
    ⟨rfl, rfl, rfl, fun found => ⟨_, found, .refl _⟩⟩ (all _ _)

theorem invalidateAll (ids : List UnitId) : w.Ages (w.invalidateAll ids) := by
  induction ids generalizing w with
  | nil => exact .refl w
  | cons id ids ih => exact (update ages_invalidated w id).trans (ih _)

end Ages

/-- A later workspace with the same units at the same places. -/
structure Stays (w later : Workspace) : Prop where
  projects : later.projects = w.projects
  lookup : later.lookup = w.lookup
  unit : ∀ {id v}, later.unit? id = some v → ∃ u, w.unit? id = some u ∧
    u.project = v.project ∧ u.path = v.path ∧ u.spec = v.spec

theorem Ages.stays (aged : w.Ages later) (projects : later.projects = w.projects) : w.Stays later := by
  refine ⟨projects, aged.lookup, fun found => ?_⟩
  obtain ⟨u, old, same⟩ := aged.of_unit? found
  exact ⟨u, old, same.project.symm, same.path.symm, same.spec.symm⟩

theorem Stays.startParse (w : Workspace) (d : Disk) (id : UnitId) : w.Stays (w.startParse d id) :=
  (Ages.startParse w d id).stays (by simp)

end Parse

section Record

/-- Dependencies of the current version of a unit are recorded in the unit and in the index. -/
theorem setDependencies_eq (found : w.unit? id = some u) (ds : List UnitId) (xs : List Diagnostic) :
    w.setDependencies id u.version ds xs = { w.update id (resolvedTo ds xs) with
        dependents := (w.setDependencies id u.version ds xs).dependents } := by
  have same : w.update id (resolvedTo ds xs) = w.update id fun v =>
      { v with
        dependencies := ds
        dependencyDiagnostics := xs
        resolvedVersion := some u.version } :=
    update_congr fun v other => by
      obtain rfl := Option.mem_unique found other
      rfl
  rw [same]
  simp [setDependencies, found, update]

theorem unit?_setDependencies (found : w.unit? id = some u) (ds : List UnitId) (xs : List Diagnostic) (j : UnitId) :
    (w.setDependencies id u.version ds xs).unit? j =
      (w.unit? j).map fun v => if id = j then v.resolvedTo ds xs else v := by
  rw [setDependencies_eq found]
  exact w.unit?_update id _ j

/-- The unit itself has what was recorded; all others are as they were. -/
theorem of_unit?_setDependencies (found : w.unit? id = some u)
    (unit : (w.setDependencies id u.version ds xs).unit? j = some v) :
    (j = id ∧ v = u.resolvedTo ds xs) ∨ (j ≠ id ∧ w.unit? j = some v) := by
  rw [unit?_setDependencies found] at unit
  obtain ⟨x, before, new⟩ := map_eq_some_iff.mp unit
  split at new
  · rename_i here
    subst here
    exact .inl ⟨rfl, by rw [mem_unique found before]; exact new.symm⟩
  · rename_i other
    exact .inr ⟨Ne.symm other, new ▸ before⟩

/-- A record changes nothing of a unit but what is recorded. -/
theorem exists_unit?_setDependencies (found : w.unit? j = some v) (id : UnitId) (version : Nat)
    (ds : List UnitId) (xs : List Diagnostic) :
    ∃ x, (w.setDependencies id version ds xs).unit? j = some x ∧ x.version = v.version ∧ x.cell = v.cell ∧
      x.project = v.project ∧ x.path = v.path := by
  unfold setDependencies
  split
  · exact ⟨v, found, rfl, rfl, rfl, rfl⟩
  · split
    · exact ⟨v, found, rfl, rfl, rfl, rfl⟩
    · refine ⟨_, (w.unit?_update id _ j).trans (by rw [found]; rfl), ?_⟩
      split <;> exact ⟨rfl, rfl, rfl, rfl⟩

section

variable (w : Workspace) (id : UnitId) (version : Nat) (ds : List UnitId) (xs : List Diagnostic)

@[simp] theorem length_pool_setDependencies : (w.setDependencies id version ds xs).pool.length = w.pool.length := by
  unfold setDependencies
  split
  · rfl
  · split
    · rfl
    · exact length_pool_update w id _

@[simp] theorem registry_setDependencies : (w.setDependencies id version ds xs).registry = w.registry := by
  unfold setDependencies
  split
  · rfl
  · split <;> rfl

theorem lookup_setDependencies : (w.setDependencies id version ds xs).lookup = w.lookup := by
  funext p path
  simp [lookup, registry_setDependencies]

@[simp] theorem bodies_setDependencies : (w.setDependencies id version ds xs).bodies = w.bodies := by
  unfold setDependencies
  split
  · rfl
  · split <;> rfl

@[simp] theorem projects_setDependencies : (w.setDependencies id version ds xs).projects = w.projects := by
  unfold setDependencies
  split
  · rfl
  · split <;> rfl

end

theorem Stays.setDependencies (found : w.unit? id = some u) (ds : List UnitId) (xs : List Diagnostic) :
    w.Stays (w.setDependencies id u.version ds xs) := by
  refine ⟨by simp, lookup_setDependencies w id u.version ds xs, fun unit => ?_⟩
  rw [unit?_setDependencies found] at unit
  obtain ⟨x, old, new⟩ := map_eq_some_iff.mp unit
  refine ⟨x, old, ?_⟩
  split at new <;> subst new <;> exact ⟨rfl, rfl, rfl⟩

theorem mem_dependents_setDependencies {version : Nat} {e : UnitId × UnitId}
    (mem : e ∈ (w.setDependencies id version ds xs).dependents) :
    e ∈ w.dependents ∨ (e.1 ∈ ds ∧ e.2 = id) := by
  unfold setDependencies at mem
  split at mem
  · exact .inl mem
  · split at mem
    · exact .inl mem
    · simp only [update, mem_append, mem_filter, List.mem_map, mem_eraseDups] at mem
      rcases mem with old | ⟨⟨d, target, same⟩, _⟩
      · exact .inl old.1
      · exact .inr ⟨same ▸ target, same ▸ rfl⟩

theorem Grows.setDependencies (found : w.unit? id = some u) (pending : ¬ u.isResolved)
    (ds : List UnitId) (xs : List Diagnostic) : w.Grows (w.setDependencies id u.version ds xs) := by
  have grown : w.Grows (w.update id (resolvedTo ds xs)) :=
    .update fun v other => by
      obtain rfl := Option.mem_unique found other
      exact ⟨rfl, rfl, rfl, rfl, fun _ found => found, fun current => absurd current pending⟩
  rw [setDependencies_eq found]
  exact ⟨grown.projects, grown.registry, grown.unit⟩

theorem Filed.setDependencies (filed : w.Filed) (found : w.unit? id = some u)
    (inside : ∀ t ∈ ds, t < w.pool.length) (xs : List Diagnostic) :
    (w.setDependencies id u.version ds xs).Filed := by
  refine ⟨by rw [registry_setDependencies]; exact filed.keys, fun place => ?_, fun unit v recorded => ?_,
    fun e mem => ?_⟩
  · rw [lookup_setDependencies] at place
    obtain ⟨v, unit, project, path⟩ := filed.registered place
    obtain ⟨x, next, _, _, project', path'⟩ := exists_unit?_setDependencies unit id u.version ds xs
    exact ⟨x, next, project'.trans project, path'.trans path⟩
  · rcases of_unit?_setDependencies found unit with ⟨_, rfl⟩ | ⟨_, same⟩
    · exact Nat.le_of_eq (some.inj recorded).symm
    · exact filed.recorded same v recorded
  · rw [length_pool_setDependencies]
    rcases mem_dependents_setDependencies mem with old | ⟨target, source⟩
    · exact filed.indexed e old
    · exact ⟨inside e.1 target, source ▸ lt_length_of_unit? found⟩

theorem WellFormed.setDependencies (ok : w.WellFormed) (found : w.unit? id = some u)
    (tree : u.cell = .finished r) (unique : ds.Nodup) (kinds : ∀ x ∈ xs, x.kind = .unresolved)
    (targets : ∀ d ∈ ds, ∃ v, w.unit? d = some v ∧ v.project = u.project) :
    (w.setDependencies id u.version ds xs).WellFormed := by
  have inside : ∀ t ∈ ds, t < w.pool.length := fun t mem =>
    (targets t mem).elim fun _ target => lt_length_of_unit? target.1
  have filed := ok.filed.setDependencies found inside xs
  have own : ∀ {j v}, (w.setDependencies id u.version ds xs).unit? j = some v → v.WellFormed ∧
      (∃ c, w.project? v.project = some c) ∧ ∀ t ∈ v.dependencies, ∃ x, w.unit? t = some x ∧ x.project = v.project := by
    intro j v unit
    rcases of_unit?_setDependencies found unit with ⟨_, rfl⟩ | ⟨_, old⟩
    · exact ⟨(ok.unit found).resolvedTo tree unique kinds, ok.project (u := u) found, targets⟩
    · exact ⟨ok.unit old, ok.project old, ok.targets old⟩
  refine ⟨filed.keys, filed.registered, fun unit => (own unit).1, fun unit => ?_, fun unit t mem => ?_, filed.indexed⟩
  · simpa [project?] using (own unit).2.1
  · obtain ⟨x, target, project⟩ := (own unit).2.2 t mem
    obtain ⟨y, next, _, _, same, _⟩ := exists_unit?_setDependencies target id u.version ds xs
    exact ⟨y, next, same.trans project⟩

end Record

section Request

variable {path : Text} {spec : UnitSpec}

def owned (w : Workspace) (p : ProjectId) : Workspace :=
  { w with owners := if w.owners.contains p then w.owners else w.owners ++ [p] }

def opened (w : Workspace) (p : ProjectId) (path : Text) (spec : UnitSpec) : Workspace :=
  { w with
    pool := w.pool ++ [{ project := p, path, spec }]
    registry := w.registry ++ [((p, path), w.pool.length)] }

section

variable (w : Workspace) (p : ProjectId) (path : Text)

/-- A request finds a unit, or none is described there, or one is made. -/
theorem request_cases :
    (∃ id, w.lookup p path = some id ∧ w.request p path = (some id, w.owned p)) ∨
    (w.lookup p path = none ∧ w.describe p path = none ∧ w.request p path = (none, w.owned p)) ∨
    (∃ spec, w.lookup p path = none ∧ w.describe p path = some spec ∧
      w.request p path = (some w.pool.length, (w.owned p).opened p path spec)) := by
  unfold request
  dsimp only
  split
  · rename_i id found
    exact .inl ⟨id, found, rfl⟩
  · rename_i absent
    split
    · rename_i hidden
      exact .inr (.inl ⟨absent, hidden, rfl⟩)
    · rename_i spec described
      exact .inr (.inr ⟨spec, absent, described, rfl⟩)

@[elab_as_elim]
theorem request_snd_induction {motive : Workspace → Prop} (owned : motive (w.owned p))
    (opened : ∀ spec, w.lookup p path = none → w.describe p path = some spec →
      motive ((w.owned p).opened p path spec)) : motive (w.request p path).2 := by
  rcases w.request_cases p path with ⟨_, _, same⟩ | ⟨_, _, same⟩ | ⟨spec, absent, described, same⟩ <;> rw [same]
  · exact owned
  · exact owned
  · exact opened spec absent described

theorem unit?_opened (spec : UnitSpec) (id : UnitId) :
    (w.opened p path spec).unit? id =
      if id = w.pool.length then some { project := p, path, spec } else w.unit? id := by
  rcases Nat.lt_trichotomy id w.pool.length with old | rfl | beyond
  · rw [if_neg (Nat.ne_of_lt old)]
    exact getElem?_append_left old
  · rw [if_pos rfl]
    exact getElem?_concat_length
  · rw [if_neg (Nat.ne_of_gt beyond)]
    have short : (w.opened p path spec).pool.length ≤ id := by
      rw [opened, length_append]
      exact beyond
    exact (getElem?_eq_none short).trans (getElem?_eq_none (Nat.le_of_lt beyond)).symm

theorem lookup_opened (spec : UnitSpec) (q : ProjectId) (place : Text) :
    (w.opened p path spec).lookup q place =
      (w.lookup q place).or (if (q, place) = (p, path) then some w.pool.length else none) := by
  simp only [lookup, opened, lookup_append, lookup_cons, lookup_nil]
  by_cases same : (q, place) = (p, path)
  · simp [same]
  · simp [same, beq_eq_false_iff_ne.mpr same]

theorem Grows.owned : w.Grows (w.owned p) :=
  ⟨rfl, fun found => found, fun found => ⟨_, found, .refl _⟩⟩

theorem Grows.opened (spec : UnitSpec) : w.Grows (w.opened p path spec) := by
  refine ⟨rfl, fun found => ?_, fun {id u} found => ⟨u, ?_, .refl u⟩⟩
  · rw [lookup_opened, found]
    rfl
  · rw [unit?_opened, if_neg (Nat.ne_of_lt (lt_length_of_unit? found)), found]

theorem Grows.request : w.Grows (w.request p path).2 := by
  refine w.request_snd_induction p path ?_ fun spec _ _ => ?_
  · exact .owned w p
  · exact (Grows.owned w p).trans (.opened _ p path spec)

@[simp] theorem bodies_request : (w.request p path).2.bodies = w.bodies :=
  w.request_snd_induction p path rfl fun _ _ _ => rfl

end

theorem WellFormed.owned (ok : w.WellFormed) (p : ProjectId) : (w.owned p).WellFormed :=
  ⟨ok.keys, ok.registered, ok.unit, ok.project, ok.targets, ok.indexed⟩

theorem of_unit?_opened (found : (w.opened p path spec).unit? id = some u) :
    w.unit? id = some u ∨ u = { project := p, path, spec } := by
  rw [unit?_opened] at found
  split at found
  · injection found with same
    exact .inr same.symm
  · exact .inl found

theorem of_lookup_opened {place : Text} (found : (w.opened p path spec).lookup q place = some id) :
    w.lookup q place = some id ∨ (q = p ∧ place = path ∧ id = w.pool.length) := by
  rw [lookup_opened] at found
  refine (or_eq_some_iff.mp found).imp_right fun ⟨_, new⟩ => ?_
  split at new
  · rename_i here
    cases here
    exact ⟨rfl, rfl, (some.inj new).symm⟩
  · cases new

theorem Filed.opened (filed : w.Filed) (absent : w.lookup p path = none)
    (spec : UnitSpec) : (w.opened p path spec).Filed := by
  have grown := Grows.opened w p path spec
  refine ⟨?_, fun {q place id} found => ?_, fun found => ?_, fun e mem => ?_⟩
  · simp only [Workspace.opened, map_append, map_cons, map_nil]
    rw [nodup_append_comm]
    refine nodup_cons.mpr ⟨fun taken => ?_, filed.keys⟩
    obtain ⟨e, mem, same⟩ := mem_map.mp taken
    have apart := lookup_eq_none_iff.mp absent e mem
    simp [same] at apart
  · rcases of_lookup_opened found with old | ⟨rfl, rfl, rfl⟩
    · obtain ⟨u, unit, project, at'⟩ := filed.registered old
      obtain ⟨v, later, kept⟩ := grown.unit unit
      exact ⟨v, later, kept.project.trans project, kept.path.trans at'⟩
    · exact ⟨_, by rw [unit?_opened, if_pos rfl], rfl, rfl⟩
  · rcases of_unit?_opened found with old | rfl
    · exact filed.recorded old
    · exact fun _ none => nomatch none
  · have bounds := filed.indexed e mem
    simp only [Workspace.opened, length_append, length_cons, length_nil]
    exact ⟨Nat.lt_succ_of_lt bounds.1, Nat.lt_succ_of_lt bounds.2⟩

theorem Filed.owned (filed : w.Filed) (p : ProjectId) : (w.owned p).Filed :=
  ⟨filed.keys, filed.registered, filed.recorded, filed.indexed⟩

theorem Filed.request (filed : w.Filed) (p : ProjectId) (path : Text) : (w.request p path).2.Filed := by
  refine w.request_snd_induction p path ?_ fun spec absent _ => ?_
  · exact filed.owned p
  · exact (filed.owned p).opened absent spec

theorem WellFormed.opened (ok : w.WellFormed) (absent : w.lookup p path = none)
    (described : w.describe p path = some spec) : (w.opened p path spec).WellFormed := by
  have filed := ok.filed.opened absent spec
  refine ⟨filed.keys, filed.registered, fun found => ?_, fun found => ?_, fun found d mem => ?_, filed.indexed⟩
  · rcases of_unit?_opened found with old | rfl
    · exact ok.unit old
    · refine ⟨nodup_nil, ?_, ?_, ?_, ?_⟩ <;> simp [isResolved]
  · rcases of_unit?_opened found with old | rfl
    · exact ok.project old
    · cases config : w.project? p with
      | some c => exact ⟨c, config⟩
      | none => simp [describe, config] at described
  · rcases of_unit?_opened found with old | rfl
    · obtain ⟨v, unit, project⟩ := ok.targets old d mem
      obtain ⟨v', later, kept⟩ := (Grows.opened w p path spec).unit unit
      exact ⟨v', later, kept.project.trans project⟩
    · cases mem

theorem WellFormed.request (ok : w.WellFormed) (p : ProjectId) (path : Text) : (w.request p path).2.WellFormed := by
  refine w.request_snd_induction p path ?_ fun _ absent described => ?_
  · exact ok.owned p
  · exact (ok.owned p).opened absent described

theorem Described.opened (known : w.Described)
    (described : w.describe p path = some spec) : (w.opened p path spec).Described := by
  intro q place id found
  rw [(Grows.opened w p path spec).describe]
  rcases of_lookup_opened found with old | ⟨rfl, rfl, _⟩
  · exact known q place id old
  · rw [described]
    rfl

theorem Described.request (known : w.Described) (p : ProjectId) (path : Text) : (w.request p path).2.Described := by
  refine w.request_snd_induction p path ?_ fun spec _ described => ?_
  · exact known
  · exact Described.opened (w := w.owned p) known described

theorem unit?_request (found : w.unit? id = some u) : (w.request p path).2.unit? id = some u := by
  refine w.request_snd_induction p path found fun spec _ _ => ?_
  · rw [unit?_opened, if_neg (Nat.ne_of_lt (lt_length_of_unit? (w := w.owned p) found))]
    exact found

/-- The only new unit is the one that was asked for. -/
theorem of_unit?_request (found : (w.request p path).2.unit? id = some u) :
    w.unit? id = some u ∨ (w.unit? id = none ∧ (w.request p path).2.lookup p path = some id ∧
      ∃ spec, w.describe p path = some spec ∧ u = { project := p, path, spec }) := by
  revert found
  refine w.request_snd_induction p path .inl fun spec absent described found => ?_
  rw [unit?_opened] at found
  split at found
  · rename_i last
    subst last
    refine .inr ⟨getElem?_eq_none (Nat.le_refl _), ?_, spec, described, (some.inj found).symm⟩
    rw [lookup_opened, if_pos rfl, show (w.owned p).lookup p path = none from absent]
    rfl
  · exact .inl found

theorem of_lookup_request {path place : Text} (found : (w.request p path).2.lookup q place = some id) :
    w.lookup q place = some id ∨ (q = p ∧ place = path ∧ w.unit? id = none) := by
  revert found
  refine w.request_snd_induction p path .inl fun spec _ _ found => ?_
  rcases of_lookup_opened found with old | ⟨project, same, rfl⟩
  · exact .inl old
  · exact .inr ⟨project, same, getElem?_eq_none (Nat.le_refl _)⟩

theorem unit?_of_request (old : id < w.pool.length) (found : (w.request p path).2.unit? id = some u) :
    w.unit? id = some u := by
  refine (of_unit?_request found).resolve_right fun ⟨absent, _⟩ => ?_
  rw [unit?, getElem?_eq_getElem old] at absent
  cases absent

theorem isRegistered_of_request (old : id < w.pool.length)
    (registered : (w.request p path).2.IsRegistered id u) : w.IsRegistered id u := by
  have unit := unit?_of_request old registered.1
  refine ⟨unit, (of_lookup_request registered.2).resolve_right fun ⟨_, _, absent⟩ => ?_⟩
  rw [unit] at absent
  cases absent

/-- What a request returns is registered afterwards, and there is something if there may be a unit. -/
theorem request_fst (known : w.Described) (p : ProjectId) (path : Text) : ((w.describe p path).isSome ∧
      ∃ id, (w.request p path).1 = some id ∧ (w.request p path).2.lookup p path = some id) ∨
    (w.describe p path = none ∧ (w.request p path).1 = none) := by
  rcases w.request_cases p path with ⟨id, found, same⟩ | ⟨_, hidden, same⟩ | ⟨spec, absent, described, same⟩
  · exact .inl ⟨known p path id found, id, by rw [same], by rw [same]; exact found⟩
  · exact .inr ⟨hidden, by rw [same]⟩
  · refine .inl ⟨by rw [described]; rfl, w.pool.length, by rw [same], ?_⟩
    rw [same, lookup_opened, if_pos rfl, show (w.owned p).lookup p path = none from absent]
    rfl

end Request

end Workspace

end ScriptBuild
