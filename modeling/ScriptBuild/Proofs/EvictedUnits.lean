import ScriptBuild.Proofs.DependencyLedger

/-! Evictions when units depend on units of their own project only, as they do by their references. -/

namespace ScriptBuild

open Option List

namespace Workspace

open Relation

variable {w : Workspace} {d : Disk} {p : ProjectId} {id t : UnitId} {u : CompilationUnit}
  {joins : ProjectId → ProjectId → Prop} {accepted : UnitId → List UnitId}

section References

/-- A workspace that came about while no project changed. -/
def IsKept (w : Workspace) : Prop := w.WellFormed ∧ w.Described ∧ ∃ accepted, Ledger (· = ·) w accepted

theorem isKept_fresh (projects : List ProjectConfig) (bodies : BodyCache) : (fresh projects bodies).IsKept :=
  ⟨wellFormed_fresh projects bodies, described_fresh projects bodies, _, .start projects bodies⟩

variable (kept : w.IsKept) (working : Path.isAbsolute d.workingDirectory)

include kept working

theorem IsKept.request (p : ProjectId) (path : Text) : (w.request p (d.absolute path)).2.IsKept := by
  obtain ⟨ok, known, accepted, ledger⟩ := kept
  exact ⟨ok.request p _, known.request p _, accepted, ledger.request p path working⟩

/-- The dependencies that are found for a unit are recorded like any others: they are units of its project
that are there. -/
theorem IsKept.dependencies {path : Text} (place : w.lookup p path = some id) (canceled : Bool) :
    (w.dependencies d canceled id).2.IsKept := by
  obtain ⟨ok, known, accepted, ledger⟩ := kept
  obtain ⟨u, registered, _⟩ := ok.filed.isRegistered place
  refine dependencies_preserves ok known ⟨ok, known, accepted, ledger⟩ ⟨ok.startParse d id, known.startParse d id,
    accepted, w.tree_snd d canceled id ▸ ledger.tree d canceled id⟩
    (fun _ _ _ later => later.request working _ _) (fun {x r v} found done later => ?_) canceled
  obtain rfl := Option.mem_unique registered.1 found
  obtain ⟨_, _, accepted, ledger⟩ := later
  have grown := (Grows.startParse w d id).trans done.opens.grows
  have there : (w.resolvedTree d id u r).workspace.IsRegistered id v :=
    ⟨done.unit, by rw [done.keeps.project, done.keeps.path]; exact grown.registry registered.2⟩
  refine ⟨done.wellFormed, done.described, _, ledger.record v.version _ there fun t mem => ?_⟩
  obtain ⟨path, found⟩ := done.sound.targets t mem
  obtain ⟨x, target, project, _⟩ := done.sound.wellFormed.filed.isRegistered found
  exact ⟨x, target, done.keeps.project.trans project.symm⟩

end References

/-- Both units are there, and the dependencies last accepted for the first one name the second. -/
def Relies (w : Workspace) (accepted : UnitId → List UnitId) (id t : UnitId) : Prop :=
  w.IsLive id ∧ w.IsLive t ∧ t ∈ accepted id

theorem Balanced.relies_iff (balanced : Balanced joins w accepted) : w.Relies accepted id t ↔ w.Indexes t id := by
  constructor
  · rintro ⟨⟨u, registered⟩, target, mem⟩
    rw [balanced.of_unit? registered.1] at mem
    exact (balanced.accounted.index registered target).mpr mem
  · intro edge
    obtain ⟨target, u, registered⟩ := balanced.accounted.live edge
    refine ⟨⟨u, registered⟩, target, ?_⟩
    rw [balanced.of_unit? registered.1]
    exact (balanced.accounted.index registered target).mp edge

theorem Balanced.reflTransGen_relies_iff (balanced : Balanced joins w accepted) :
    ReflTransGen (w.Relies accepted) id t ↔ ReflTransGen w.Indexes t id := by
  have same : w.Relies accepted = Function.swap w.Indexes := by
    funext a b
    exact propext balanced.relies_iff
  rw [same, reflTransGen_swap]

theorem Filed.nodup_paths (filed : w.Filed) (p : ProjectId) : ((w.members p).map w.unitPath).Nodup := by
  have own : ∀ e ∈ w.registry, w.unitPath e.2 = e.1.2 := fun e mem => by
    obtain ⟨u, unit, _, path⟩ := filed.registered (lookup_of_mem filed.keys mem)
    rw [unitPath, unit]
    exact path
  rw [members, List.map_map]
  refine List.Nodup.map_on (fun a first b second same => ?_) (filed.keys.of_map.filter _)
  obtain ⟨first, projectA⟩ := mem_filter.mp first
  obtain ⟨second, projectB⟩ := mem_filter.mp second
  simp only [Function.comp_apply, own a first, own b second] at same
  refine inj_on_of_nodup_map filed.keys first second (Prod.ext ?_ same)
  exact (beq_iff_eq.mp projectA).trans (beq_iff_eq.mp projectB).symm

/-- What an eviction comes to: the units that go, and what is left of the others. -/
structure Evicts (w : Workspace) (p : ProjectId) (accepted : UnitId → List UnitId) : Prop where
  kept : ∀ {q path id}, (w.evict p).2.lookup q path = some id ↔
    w.lookup q path = some id ∧ (q = p → (w.describe p path).isSome)
  instances : ∀ {id u}, w.unit? id = some u → ∃ v, (w.evict p).2.unit? id = some v ∧ u.Ages v
  removed : ∀ {path}, path ∈ (w.evict p).1 ↔ (w.lookup p path).isSome ∧ w.describe p path = none
  sorted : (w.evict p).1.Pairwise (· < ·)
  dropped : ∀ {id v s u}, (w.evict p).2.IsRegistered id v → TransGen (w.Relies accepted) id s →
    w.IsRegistered s u → u.project = p → w.describe p u.path = none → ¬ v.isResolved
  spared : ∀ {id u}, w.IsRegistered id u → (∀ s, ReflTransGen (w.Relies accepted) id s → s ∉ w.unresolved p ∧
      ∀ v, w.IsRegistered s v → v.project = p → (w.describe p v.path).isSome) →
    (w.evict p).2.unit? id = some u
  others : ∀ {id u}, w.unit? id = some u → u.project ≠ p → (w.evict p).2.unit? id = some u

theorem Accounted.project_of_mem_closure (accounted : w.Accounted (· = ·))
    (reached : id ∈ w.closure (w.strays p ++ w.unresolved p)) (found : w.unit? id = some u) : u.project = p := by
  obtain ⟨s, source, path⟩ := (mem_closure_strays_iff accounted.filed).mp reached
  have mem : s ∈ w.members p := by
    rcases source with stray | pending
    · exact (mem_filter.mp stray).1
    · exact (mem_filter.mp pending).1
  obtain ⟨v, registered, project⟩ := (mem_members_iff accounted.filed).mp mem
  -- Along the way from the source no edge leaves the project.
  have all : ∀ {j}, ReflTransGen w.Indexes s j → ∀ {x}, w.unit? j = some x → x.project = p := by
    intro j way
    induction way with
    | refl =>
      intro x unit
      rw [registered.1] at unit
      exact some.inj unit ▸ project
    | tail _ edge ih =>
      intro x unit
      obtain ⟨⟨y, near⟩, _⟩ := accounted.live edge
      exact (accounted.joined edge near.1 unit).trans (ih near.1)
  exact all path found

theorem Balanced.evicts (balanced : Balanced (· = ·) w accepted) (p : ProjectId) : w.Evicts p accepted := by
  have accounted := balanced.accounted
  have filed := accounted.filed
  refine ⟨fun {q path id} => ?_, fun found => ?_, fun {path} => ?_, ?_,
    fun {id v s u} stays way registered own hidden => ?_,
    fun {id u} registered clear => ?_, fun {id u} found other => ?_⟩
  · rw [lookup_evict_iff filed]
    exact and_congr_right (not_mem_strays_iff filed)
  · exact (Ages.invalidateAll (w.without (w.strays p)) (w.unsettled p)).unit found
  · change path ∈ Text.sort ((w.strays p).map w.unitPath) ↔ _
    rw [Text.mem_sort, List.mem_map]
    constructor
    · rintro ⟨id, gone, rfl⟩
      obtain ⟨u, registered, rfl, hidden⟩ := (mem_strays_iff filed).mp gone
      rw [unitPath, registered.1]
      exact ⟨by simp [registered.2], hidden⟩
    · rintro ⟨there, hidden⟩
      obtain ⟨id, found⟩ := isSome_iff_exists.mp there
      obtain ⟨u, registered, project, place⟩ := filed.isRegistered found
      refine ⟨id, (mem_strays_iff filed).mpr ⟨u, registered, project, place ▸ hidden⟩, ?_⟩
      rw [unitPath, registered.1]
      exact place
  · exact Text.pairwise_lt_sort ((filed.nodup_paths p).sublist (filter_sublist.map _))
  · intro current
    have outside := ((current_evict_iff filed current).mp stays).2
    have gone : s ∈ w.strays p := (mem_strays_iff filed).mpr ⟨u, registered, own, hidden⟩
    have reached := balanced.reflTransGen_relies_iff.mp way.to_reflTransGen
    exact outside ((mem_closure_strays_iff filed).mpr ⟨s, .inl gone, reached⟩)
  · rw [unit?_evict_of_not_mem]
    · exact registered.1
    · intro reached
      obtain ⟨s, source, way⟩ := (mem_closure_strays_iff filed).mp reached
      obtain ⟨settled, described⟩ := clear s (balanced.reflTransGen_relies_iff.mpr way)
      rcases source with gone | pending
      · obtain ⟨v, stray, project, hidden⟩ := (mem_strays_iff filed).mp gone
        have known := described v stray project
        rw [hidden] at known
        cases known
      · exact settled pending
  · rw [unit?_evict_of_not_mem fun reached => other (accounted.project_of_mem_closure reached found)]
    exact found

/-- A current set names units that are there. After a change of a project, an eviction removes exactly its units that
are not described any more. -/
theorem Ledger.isLive_and_evicts (ledger : Ledger (· = ·) w accepted) (p : ProjectId)
    (f : ProjectConfig → ProjectConfig) :
    (∀ id, w.IsLive id → ∀ t ∈ w.currentDependencies id, w.IsLive t) ∧ (w.configure p f).Evicts p accepted := by
  refine ⟨fun id live t member => ?_, (ledger.configure p f).balanced.evicts p⟩
  obtain ⟨u, registered⟩ := live
  rw [currentDependencies, registered.1] at member
  dsimp only at member
  split at member
  · rename_i current
    exact ledger.balanced.accounted.settled registered current t member
  · cases member

/-- A file that imports another one, which imports one of a second root. -/
def chainFiles : Disk :=
  { entries :=
      [("/src/A.kn", { content := "import B" }), ("/src/B.kn", { content := "import C" }),
        ("/more/C.kn", { content := "class C" })] }

def chainProject : ProjectConfig :=
  { name := "app", sourcePaths := ["/src", "/more"], extensions := [(".kn", .source)] }

def chainStart : Workspace := ((fresh [chainProject] {}).request 0 (chainFiles.absolute "/src/A.kn")).2

def chainUnits : Workspace :=
  ((chainStart.dependencies chainFiles false 0).2.dependencies chainFiles false 1).2

theorem isKept_chainUnits : chainUnits.IsKept := by
  have start : chainStart.IsKept := (isKept_fresh _ _).request rfl 0 _
  have placeA : chainStart.lookup 0 "/src/A.kn" = some 0 := by decide +kernel
  have placeB : (chainStart.dependencies chainFiles false 0).2.lookup 0 "/src/B.kn" = some 1 := by decide +kernel
  exact (start.dependencies rfl placeA false).dependencies rfl placeB false

/-- Without the second root the last file goes, and what is known of the first one is dropped. -/
theorem evict_chainUnits :
    let changed := chainUnits.configure 0 fun c => { c with sourcePaths := ["/src"] }
    ("/more/C.kn" : Text) ∈ (changed.evict 0).1 ∧ (changed.evict 0).2.lookup 0 "/src/A.kn" = some 0 ∧
      ∀ v, (changed.evict 0).2.IsRegistered 0 v → ¬ v.isResolved := by
  intro changed
  obtain ⟨_, _, accepted, ledger⟩ := isKept_chainUnits
  have places : chainUnits.lookup 0 "/src/A.kn" = some 0 ∧ chainUnits.lookup 0 "/more/C.kn" = some 2 := by decide +kernel
  have hidden : changed.describe 0 "/more/C.kn" = none := by decide +kernel
  have dropped : ((changed.evict 0).2.unit? 0).any (·.isResolved) = false := by decide +kernel
  obtain ⟨_, evicts⟩ := ledger.isLive_and_evicts 0 fun c => { c with sourcePaths := ["/src"] }
  refine ⟨evicts.removed.mpr ⟨Option.isSome_of_eq_some places.2, hidden⟩,
    evicts.kept.mpr ⟨places.1, fun _ => by decide +kernel⟩, fun v registered => ?_⟩
  rw [registered.1] at dropped
  exact Bool.eq_false_iff.mp dropped

end Workspace

namespace Workspace

open Relation

variable {w : Workspace} {id : UnitId} {u : CompilationUnit} {path : Text} {joins : ProjectId → ProjectId → Prop}
  {accepted : UnitId → List UnitId}

theorem Filed.mem_atPath_iff (filed : w.Filed) : id ∈ w.atPath path ↔ ∃ p, w.lookup p path = some id :=
  Workspace.mem_atPath_iff.trans
    (exists_congr fun _ => ⟨lookup_of_mem filed.keys, mem_of_lookup⟩)

theorem mem_sortByPath {ids : List UnitId} : id ∈ w.sortByPath ids ↔ id ∈ ids := mem_mergeSort

theorem pairwise_sortByPath (w : Workspace) (ids : List UnitId) :
    (w.sortByPath ids).Pairwise fun a b => w.unitPath a ≤ w.unitPath b := by
  refine (pairwise_mergeSort (fun a b c first second => ?_) (fun a b => ?_) ids).imp Text.ble_iff_le.mp
  · exact Text.ble_iff_le.mpr (List.le_trans (Text.ble_iff_le.mp first) (Text.ble_iff_le.mp second))
  · simpa only [Bool.or_eq_true, Text.ble_iff_le] using List.le_total (w.unitPath a) (w.unitPath b)

/-- A unit that an invalidation of a path reaches: it relies, directly or not, on one that is there. -/
def IsReached (w : Workspace) (accepted : UnitId → List UnitId) (path : Text) (id : UnitId) : Prop :=
  ∃ p s, w.lookup p path = some s ∧ ReflTransGen (w.Relies accepted) id s

theorem Balanced.mem_closure_atPath_iff (balanced : Balanced joins w accepted) :
    id ∈ w.closure (w.atPath path) ↔ w.IsReached accepted path id := by
  have filed := balanced.accounted.filed
  rw [mem_closure_iff filed filed.lt_length_of_mem_atPath]
  constructor
  · rintro ⟨s, source, way⟩
    obtain ⟨p, found⟩ := filed.mem_atPath_iff.mp source
    exact ⟨p, s, found, balanced.reflTransGen_relies_iff.mpr way⟩
  · rintro ⟨p, s, found, way⟩
    exact ⟨s, filed.mem_atPath_iff.mpr ⟨p, found⟩, balanced.reflTransGen_relies_iff.mp way⟩

theorem Balanced.isLive_of_isReached (balanced : Balanced joins w accepted)
    (reached : w.IsReached accepted path id) : w.IsLive id := by
  obtain ⟨p, s, found, way⟩ := reached
  rcases ReflTransGen.cases_head way with rfl | ⟨t, edge, _⟩
  · exact balanced.accounted.filed.isLive_iff.mpr ⟨p, path, found⟩
  · exact edge.1

/-- What an invalidation of a path comes to: the units that it names, and what is left of all units. -/
structure Invalidates (w : Workspace) (accepted : UnitId → List UnitId) (path : Text) : Prop where
  affected : ∀ {id}, id ∈ (w.invalidate path).1 ↔ w.IsReached accepted path id
  live : ∀ {id}, w.IsReached accepted path id → w.IsLive id
  once : (w.invalidate path).1.Nodup
  ordered : (w.invalidate path).1.Pairwise fun a b => w.unitPath a ≤ w.unitPath b
  dropped : ∀ {id u}, w.IsReached accepted path id → w.unit? id = some u →
    (w.invalidate path).2.unit? id = some { u with version := u.version + 1, cell := .idle } ∧
      (w.invalidate path).2.currentDependencies id = []
  spared : ∀ {id}, ¬ w.IsReached accepted path id → (w.invalidate path).2.unit? id = w.unit? id ∧
      (w.invalidate path).2.currentDependencies id = w.currentDependencies id
  frame : (w.invalidate path).2 = { w with pool := (w.invalidate path).2.pool }

theorem currentDependencies_of_not_isResolved (found : w.unit? id = some u) (old : ¬ u.isResolved) :
    w.currentDependencies id = [] := by
  simp [currentDependencies, found, old]

/-- An invalidation of a path takes exactly the units at its absolute form, and those that rely on them, one version
on; it names each of them once, by path, and changes nothing else. -/
theorem Ledger.invalidates (ledger : Ledger joins w accepted) (d : Disk) (path : Text) :
    w.Invalidates accepted (d.absolute path) := by
  have balanced := ledger.balanced
  have unique := w.nodup_closure (w.atPath (d.absolute path))
  have reached : ∀ {id}, id ∈ w.closure (w.atPath (d.absolute path)) ↔ w.IsReached accepted (d.absolute path) id :=
    balanced.mem_closure_atPath_iff
  refine ⟨mem_sortByPath.trans reached, balanced.isLive_of_isReached,
    (mergeSort_perm _ _).nodup_iff.mpr unique, pairwise_sortByPath w _, fun {id u} inside found => ?_,
    fun {id} outside => ?_, invalidateAll_eq w _⟩
  · have now : (w.invalidate (d.absolute path)).2.unit? id = some u.invalidated := by
      rw [Workspace.invalidate, unit?_invalidateAll unique, found, Option.map_some, if_pos (reached.mpr inside)]
    exact ⟨now, currentDependencies_of_not_isResolved now
      (CompilationUnit.not_isResolved_invalidated (balanced.accounted.filed.recorded found))⟩
  · have same : (w.invalidate (d.absolute path)).2.unit? id = w.unit? id :=
      unit?_invalidateAll_of_not_mem unique (fun member => outside (reached.mp member)) w
    exact ⟨same, by rw [currentDependencies, same, currentDependencies]⟩

def sharedFiles : Disk :=
  { entries :=
      [("/src/A.kn", { content := "import B\nimport C\n" }), ("/src/B.kn", { content := "import A\nimport C\n" }),
        ("/src/C.kn", { content := "class C\nend\n" })] }

/-- Two projects with the same files, and a unit of the first one. -/
def twinStart : Workspace :=
  let project : ProjectConfig := { name := "app", sourcePaths := ["/src"], extensions := [(".kn", .source)] }
  ((fresh [project, { project with name := "tool" }] {}).request 0 (sharedFiles.absolute "/src/A.kn")).2

/-- The dependencies of the two files in the circle were asked for in the first project; the second one has
units for two of the files. -/
def twinUnits : Workspace :=
  let known := ((twinStart.dependencies sharedFiles false 0).2.dependencies sharedFiles false 1).2
  ((known.request 1 (sharedFiles.absolute "/src/C.kn")).2.request 1 (sharedFiles.absolute "/src/B.kn")).2

theorem isKept_twinUnits : twinUnits.IsKept := by
  have start : twinStart.IsKept := (isKept_fresh _ _).request rfl 0 _
  have placeA : twinStart.lookup 0 "/src/A.kn" = some 0 := by decide +kernel
  have placeB : (twinStart.dependencies sharedFiles false 0).2.lookup 0 "/src/B.kn" = some 1 := by decide +kernel
  have known := (start.dependencies (d := sharedFiles) rfl placeA false).dependencies (d := sharedFiles) rfl placeB false
  exact (known.request rfl 1 _).request rfl 1 _

/-- The first unit relies on the third one directly and through the circle; the last unit is left alone. -/
theorem invalidate_twinUnits :
    let path := sharedFiles.absolute "/src/lib/../C.kn"
    let later := (twinUnits.invalidate path).2
    0 ∈ (twinUnits.invalidate path).1 ∧ 3 ∈ (twinUnits.invalidate path).1 ∧ 4 ∉ (twinUnits.invalidate path).1 ∧
      (∀ id, id = 0 ∨ id = 3 → (later.unit? id).map (·.version) = some 1) ∧
      later.unit? 4 = twinUnits.unit? 4 := by
  intro path later
  obtain ⟨_, _, accepted, ledger⟩ := isKept_twinUnits
  have invalidates := ledger.invalidates sharedFiles "/src/lib/../C.kn"
  have affected : 0 ∈ (twinUnits.invalidate path).1 ∧ 3 ∈ (twinUnits.invalidate path).1 ∧
      4 ∉ (twinUnits.invalidate path).1 := by
    simp only [invalidate, mem_sortByPath]
    decide +kernel
  refine ⟨affected.1, affected.2.1, affected.2.2, ?_, (invalidates.spared (mt invalidates.affected.mpr affected.2.2)).1⟩
  have before : (twinUnits.unit? 0).map (·.version) = some 0 ∧ (twinUnits.unit? 3).map (·.version) = some 0 := by
    decide +kernel
  have on : ∀ {id}, id ∈ (twinUnits.invalidate path).1 → (twinUnits.unit? id).map (·.version) = some 0 →
      (later.unit? id).map (·.version) = some 1 := by
    intro id mem version
    obtain ⟨u, unit, zero⟩ := Option.map_eq_some_iff.mp version
    rw [(invalidates.dropped (invalidates.affected.mp mem) unit).1, Option.map_some, zero]
  rintro id (rfl | rfl)
  · exact on affected.1 before.1
  · exact on affected.2.1 before.2

end Workspace

end ScriptBuild
