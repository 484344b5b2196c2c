import ScriptBuild.Proofs.BuildOutcome
import ScriptBuild.Proofs.Eviction

/-! Dependencies that are recorded and those that resolving again would give. -/

namespace ScriptBuild

namespace Workspace

variable {w later : Workspace} {d disk : Disk}

/-- Resolving the references of a unit again gives the dependencies and diagnostics that are recorded
for its version, for every unit that has them. -/
def Faithful (w : Workspace) (d : Disk) : Prop :=
  ∀ id u r, w.IsRegistered id u → u.isResolved → u.cell = .finished r →
    (w.resolution d id u r.file).dependencies = u.dependencies ∧
      (w.resolution d id u r.file).diagnostics = u.dependencyDiagnostics

/-- Whether resolving the references of a unit again gives other dependencies than are recorded. -/
def isOutdated (w : Workspace) (d : Disk) (id : UnitId) : Bool :=
  (w.unit? id).any fun u =>
    match u.cell with
    | .finished r => u.isResolved && w.lookup u.project u.path == some id &&
        (w.resolution d id u r.file).dependencies != u.dependencies
    | .idle | .started => false

theorem Faithful.isOutdated_eq_false (faithful : w.Faithful d) (id : UnitId) : w.isOutdated d id = false := by
  rw [← Bool.not_eq_true, isOutdated, Option.any_eq_true]
  rintro ⟨u, found, outdated⟩
  cases tree : u.cell with
  | idle | started => rw [tree] at outdated; cases outdated
  | finished r =>
    rw [tree] at outdated
    simp only [Bool.and_eq_true, beq_iff_eq, bne_iff_ne] at outdated
    obtain ⟨⟨current, place⟩, differs⟩ := outdated
    exact differs (faithful id u r ⟨found, place⟩ current tree).1

/-- The references of a unit lead where its dependencies are if and only if resolving them again gives
these dependencies. -/
theorem faithful_iff_allLinked (ok : w.WellFormed) (known : w.Described) : w.Faithful d ↔ w.AllLinked d := by
  constructor
  · intro faithful id u registered current r c tree config
    obtain ⟨dependencies, diagnostics⟩ := faithful id u r registered current tree
    have same := resolution_matches ok known config d registered.2 r.file
    obtain ⟨_, opens⟩ := resolution_sound ok known config d id r.file
    have numbers := same.targets
    rw [dependencies] at numbers
    refine ⟨map_lookup_eq (fun path mem t found => ?_) numbers, diagnostics ▸ same.diagnostics⟩
    -- A unit that was made on the way is none of the recorded ones.
    refine (opens.of_lookup found).resolve_right fun absent => ?_
    have entry := List.mem_map_of_mem (f := (w.resolution d id u r.file).workspace.lookup u.project) mem
    rw [← numbers, found] at entry
    obtain ⟨t', target, equal⟩ := List.mem_map.mp entry
    obtain ⟨v, unit, _⟩ := ok.targets registered.1 t' target
    rw [Option.some.inj equal, absent] at unit
    cases unit
  · intro linked id u r registered current tree
    obtain ⟨c, config⟩ := ok.project registered.1
    obtain ⟨targets, diagnostics⟩ := linked id u registered current r c tree config
    have same := resolution_matches ok known config d registered.2 r.file
    obtain ⟨_, opens⟩ := resolution_sound ok known config d id r.file
    have numbers := opens.grows.map_lookup targets
    rw [← same.targets] at numbers
    exact ⟨(List.map_injective_iff.mpr (fun _ _ => Option.some.inj) numbers).symm,
      same.diagnostics.trans diagnostics.symm⟩

/-- If all that is recorded is kept from a workspace where it was right, it is right exactly if the
references lead where they led. -/
theorem AllLinked.iff_links_eq (linked : w.AllLinked d) (ok : w.WellFormed)
    (units : ∀ {id u}, later.IsRegistered id u → u.isResolved → w.IsRegistered id u)
    (places : ∀ {p path id}, later.lookup p path = some id → w.lookup p path = some id)
    (kept : ∀ {p c path id}, later.project? p = some c → (c.describe path).isSome →
      w.lookup p path = some id → later.lookup p path = some id) :
    later.AllLinked disk ↔ ∀ id u r c c', later.IsRegistered id u → u.isResolved →
      u.cell = .finished r → w.project? u.project = some c → later.project? u.project = some c' →
      c'.links disk u.path r.file = c.links d u.path r.file := by
  constructor
  · intro right id u r c c' registered current tree config config'
    obtain ⟨old, oldDiagnostics⟩ := linked id u (units registered current) current r c tree config
    obtain ⟨new, newDiagnostics⟩ := right id u registered current r c' tree config'
    have numbers := map_lookup_eq (fun _ _ _ found => places found) new
    exact Links.ext ((ok.map_unitPath numbers).symm.trans (ok.map_unitPath old))
      (newDiagnostics.symm.trans oldDiagnostics)
  · intro same id u registered current r c' tree config'
    obtain ⟨c, config⟩ := ok.project (units registered current).1
    obtain ⟨old, oldDiagnostics⟩ := linked id u (units registered current) current r c tree config
    rw [← same id u r c c' registered current tree config config'] at old oldDiagnostics
    refine ⟨map_lookup_eq (fun path mem _ found => kept config' ?_ found) old, oldDiagnostics⟩
    exact ProjectConfig.describe_of_mem_linksFrom r.file.references (fun _ none => absurd none List.not_mem_nil) path
      mem

/-- A well-formed workspace whose records are right. -/
structure Coherent (w : Workspace) (d : Disk) : Prop where
  wellFormed : w.WellFormed
  described : w.Described
  linked : w.AllLinked d
  traced : w.Traced

namespace Coherent

variable {id : UnitId}

theorem faithful (good : w.Coherent d) : w.Faithful d :=
  (faithful_iff_allLinked good.wellFormed good.described).mpr good.linked

theorem fresh (projects : List ProjectConfig) (bodies : BodyCache) (d : Disk) :
    (fresh projects bodies).Coherent d :=
  ⟨wellFormed_fresh projects bodies, described_fresh projects bodies,
    (fun _ _ registered => nomatch registered.1), traced_fresh projects bodies⟩

section

variable (good : w.Coherent d) (canceled : Bool) (id : UnitId)

include good

theorem request (p : ProjectId) (path : Text) : (w.request p path).2.Coherent d :=
  ⟨good.wellFormed.request p path, good.described.request p path,
    good.linked.request good.wellFormed p path, good.traced.request p path⟩

theorem startParse : (w.startParse d id).Coherent d :=
  ⟨good.wellFormed.startParse d id, good.described.startParse d id, good.linked.startParse good.wellFormed d id,
    good.traced.ages good.wellFormed.filed (.startParse w d id) (by simp)⟩

theorem tree : (w.tree d canceled id).2.Coherent d := by
  rw [tree_snd]
  exact good.startParse id

theorem dependencies : (w.dependencies d canceled id).2.Coherent d :=
  dependencies_preserves (motive := fun x => x.Coherent d) good.wellFormed good.described good (good.startParse id)
    (fun _ _ _ later => later.request _ _)
    (fun found done later => ⟨done.wellFormed, done.described,
      done.allLinked good.wellFormed good.described found later.linked, later.traced.setDependencies done.unit _ _⟩)
    canceled

theorem withBodies (cache : BodyCache) : ({ w with bodies := cache } : Workspace).Coherent d := by
  obtain ⟨keys, registered, unit, project, targets, indexed⟩ := good.wellFormed
  exact ⟨⟨keys, registered, unit, project, targets, indexed⟩, good.described, good.linked,
    ⟨good.traced.index, good.traced.owner⟩⟩

theorem sameFiles {touched : Text → Prop} (same : d.SameFiles w.projects touched disk) : w.Coherent disk :=
  ⟨good.wellFormed, good.described, good.linked.sameFiles same, good.traced⟩

end

section References

open Relation

variable {u : CompilationUnit} {r : SyntaxResult} {c : ProjectConfig} {ref : Reference}
  (good : w.Coherent d) (registered : w.IsRegistered id u) (current : u.isResolved)
  (tree : u.cell = .finished r) (config : w.project? u.project = some c)
  (mem : ref ∈ r.file.references)

include good registered current tree config mem

/-- The units that refer to a file are found from the one at its path. -/
theorem exists_indexes {path : Text} (found : c.find d r.file ref = .unit path) :
    ∃ s, w.lookup u.project path = some s ∧ ReflTransGen w.Indexes s id := by
  by_cases own : path = u.path
  · exact ⟨id, own ▸ registered.2, .refl⟩
  · have target := c.mem_targets_of_find mem found own
    obtain ⟨targets, _⟩ := good.linked id u registered current r c tree config
    have entry := List.mem_map_of_mem (f := w.lookup u.project) target
    rw [← targets] at entry
    obtain ⟨t, dependency, place⟩ := List.mem_map.mp entry
    exact ⟨t, place.symm, .single (good.traced.index registered current dependency)⟩

theorem mem_unresolved {message : Text} (missing : c.find d r.file ref = .missing message) :
    id ∈ w.unresolved u.project := by
  have reported : .warning .unresolved u.path ref.line message ∈ (c.links d u.path r.file).diagnostics :=
    c.mem_diagnostics_of_find mem missing
  rw [← (good.linked id u registered current r c tree config).2] at reported
  have pending : u.hasUnresolved := by
    simp only [CompilationUnit.hasUnresolved, current, Bool.true_and, List.any_eq_true]
    exact ⟨_, reported, rfl⟩
  refine List.mem_filter.mpr ⟨?_, by simpa [isUnresolved, registered.1] using pending⟩
  exact List.mem_map.mpr ⟨_, List.mem_filter.mpr ⟨mem_of_lookup registered.2, by simp⟩, rfl⟩

end References

end Coherent

end Workspace

theorem Builder.keeps_coherent {σ : Type} {b : Builder σ} {usable : σ → Prop}
    {projects : List ProjectConfig} (spares : b.Spares usable projects) :
    b.Keeps fun s => s.workspace.Coherent (b.diskOf s.world) ∧ s.workspace.projects = projects ∧ usable s.world where
  request s path := fun ⟨good, same, fit⟩ =>
    ⟨good.request _ _, (Workspace.Grows.request _ _ _).projects.trans same, fit⟩
  parse s id := fun ⟨good, same, fit⟩ =>
    ⟨good.startParse id, (Workspace.Grows.startParse _ _ _).projects.trans same, fit⟩
  resolve s canceled id := fun ⟨good, same, fit⟩ =>
    ⟨good.dependencies canceled id,
      (Workspace.dependencies_grows good.wellFormed good.described _ _ _).2.2.projects.trans same, fit⟩
  bodies s cache := fun ⟨good, same, fit⟩ => ⟨good.withBodies cache, same, fit⟩
  prepare s := fun ⟨good, same, fit⟩ => by
    obtain ⟨still, kept⟩ := spares.prepare s.world fit
    exact ⟨good.sameFiles (same ▸ kept), same, still⟩
  write s name text := fun ⟨good, same, fit⟩ => by
    obtain ⟨still, kept⟩ := spares.write s.world name text fit
    exact ⟨good.sameFiles (same ▸ kept), same, still⟩

end ScriptBuild
