import Mathlib.Logic.Function.Basic
import ScriptBuild.Proofs.Eviction
import ScriptBuild.Proofs.Places

/-! The index of dependents against the dependencies that units were given. -/

namespace ScriptBuild

open CompilationUnit

variable {ds : List UnitId} {path : Text}

namespace Workspace

variable {w later : Workspace} {d : Disk} {id t : UnitId} {u : CompilationUnit}

def IsLive (w : Workspace) (id : UnitId) : Prop := ∃ u, w.IsRegistered id u

theorem Filed.isLive_iff (filed : w.Filed) : w.IsLive id ↔ ∃ p path, w.lookup p path = some id := by
  constructor
  · rintro ⟨u, registered⟩
    exact ⟨u.project, u.path, registered.2⟩
  · rintro ⟨p, path, found⟩
    obtain ⟨u, registered, _⟩ := filed.isRegistered found
    exact ⟨u, registered⟩

/-- The units, their records and the index of a workspace tell the same. Only units of projects that
`joins` allows depend on each other. -/
structure Accounted (joins : ProjectId → ProjectId → Prop) (w : Workspace) : Prop where
  filed : w.Filed
  places : ∀ {p path id}, w.lookup p path = some id → Path.IsNormal path
  targets : ∀ {id u}, w.unit? id = some u → ∀ t ∈ u.dependencies, t < w.pool.length
  live : ∀ {t id}, w.Indexes t id → w.IsLive t ∧ w.IsLive id
  index : ∀ {t id u}, w.IsRegistered id u → w.IsLive t → (w.Indexes t id ↔ t ∈ u.dependencies)
  joined : ∀ {t id v u}, w.Indexes t id → w.unit? t = some v → w.unit? id = some u → joins u.project v.project
  settled : ∀ {id u}, w.IsRegistered id u → u.isResolved → ∀ t ∈ u.dependencies, w.IsLive t

variable {joins : ProjectId → ProjectId → Prop}

theorem accounted_fresh (joins : ProjectId → ProjectId → Prop) (projects : List ProjectConfig)
    (bodies : BodyCache) : (fresh projects bodies).Accounted joins :=
  ⟨(wellFormed_fresh projects bodies).filed, (fun found => nomatch found), (fun found => nomatch found),
    (fun edge => nomatch edge), (fun registered => nomatch registered.1), (fun edge => nomatch edge),
    fun registered => nomatch registered.1⟩

theorem setDependencies_of_ne (found : w.unit? id = some u) {version : Nat} (old : u.version ≠ version)
    (ds : List UnitId) (xs : List Diagnostic) : w.setDependencies id version ds xs = w := by
  simp [setDependencies, found, old]

theorem without_nil (w : Workspace) : w.without [] = w := by
  simp [without]

namespace Accounted

variable (accounted : w.Accounted joins)

include accounted

theorem request (normal : Path.IsNormal path) (p : ProjectId) : (w.request p path).2.Accounted joins := by
  have filed := accounted.filed.request p path
  have grown := Grows.request w p path
  have stays : ∀ {id}, w.IsLive id → (w.request p path).2.IsLive id := by
    intro id live
    obtain ⟨q, place, found⟩ := accounted.filed.isLive_iff.mp live
    exact filed.isLive_iff.mpr ⟨q, place, grown.registry found⟩
  have indexes : ∀ {t id}, (w.request p path).2.Indexes t id ↔ w.Indexes t id := by
    intro t id
    rw [Indexes, dependents_request, Indexes]
  refine ⟨filed, fun found => ?_, fun found t mem => ?_, fun edge => ?_,
    fun {t id u} registered target => ?_, fun edge foundT foundU => ?_,
    fun {id u} registered current t mem => ?_⟩
  · rcases of_lookup_request found with old | ⟨_, rfl, _⟩
    · exact accounted.places old
    · exact normal
  · rcases of_unit?_request found with old | ⟨_, _, _, _, new⟩
    · obtain ⟨v, later, _⟩ := grown.unit (List.getElem?_eq_getElem (accounted.targets old t mem))
      exact lt_length_of_unit? later
    · rw [new] at mem
      cases mem
  · obtain ⟨first, second⟩ := accounted.live (indexes.mp edge)
    exact ⟨stays first, stays second⟩
  · rw [indexes]
    constructor
    · intro edge
      have old := isRegistered_of_request (accounted.filed.indexed _ edge).2 registered
      exact (accounted.index old (accounted.live edge).1).mp edge
    · intro mem
      rcases of_unit?_request registered.1 with old | ⟨_, _, _, _, new⟩
      · have known := isRegistered_of_request (lt_length_of_unit? old) registered
        obtain ⟨v, unit⟩ := target
        have there := isRegistered_of_request (accounted.targets old t mem) unit
        exact (accounted.index known ⟨v, there⟩).mpr mem
      · rw [new] at mem
        cases mem
  · obtain ⟨first, second⟩ := accounted.filed.indexed _ (indexes.mp edge)
    exact accounted.joined (indexes.mp edge) (unit?_of_request first foundT) (unit?_of_request second foundU)
  · rcases of_unit?_request registered.1 with old | ⟨_, _, _, _, new⟩
    · have known := isRegistered_of_request (lt_length_of_unit? old) registered
      exact stays (accounted.settled known current t mem)
    · rw [new] at current
      cases current

theorem setDependencies (registered : w.IsRegistered id u) (version : Nat)
    (targets : ∀ t ∈ ds, ∃ v, w.IsRegistered t v ∧ joins u.project v.project) (xs : List Diagnostic) :
    (w.setDependencies id version ds xs).Accounted joins := by
  by_cases old : u.version ≠ version
  · rw [setDependencies_of_ne registered.1 old]
    exact accounted
  rw [not_not] at old
  subst old
  have found := registered.1
  have inside : ∀ t ∈ ds, t < w.pool.length := fun t mem => by
    obtain ⟨v, unit, _⟩ := targets t mem
    exact lt_length_of_unit? unit.1
  have filed := accounted.filed.setDependencies found inside xs
  have lookup := w.lookup_setDependencies id u.version ds xs
  have isLive : ∀ {j}, (w.setDependencies id u.version ds xs).IsLive j ↔ w.IsLive j := by
    intro j
    rw [filed.isLive_iff, accounted.filed.isLive_iff, lookup]
  have before : ∀ {j v}, (w.setDependencies id u.version ds xs).unit? j = some v →
      ∃ x, w.unit? j = some x ∧ v.project = x.project := by
    intro j v unit
    rcases of_unit?_setDependencies found unit with ⟨rfl, rfl⟩ | ⟨_, same⟩
    · exact ⟨u, found, rfl⟩
    · exact ⟨v, same, rfl⟩
  refine ⟨filed, fun place => accounted.places (lookup ▸ place), fun unit t mem => ?_,
    fun {t j} edge => ?_, fun {t j v} unit target => ?_, fun {t j x v} edge foundT foundJ => ?_,
    fun unit current t mem => ?_⟩
  · rw [length_pool_setDependencies]
    rcases of_unit?_setDependencies found unit with ⟨_, rfl⟩ | ⟨_, same⟩
    · exact inside t mem
    · exact accounted.targets same t mem
  · rw [isLive, isLive]
    rcases (indexes_setDependencies_iff found).mp edge with ⟨rfl, mem⟩ | ⟨kept, _⟩
    · obtain ⟨v, unit, _⟩ := targets t mem
      exact ⟨⟨v, unit⟩, u, registered⟩
    · exact accounted.live kept
  · rw [indexes_setDependencies_iff found]
    have there := isLive.mp target
    rcases of_unit?_setDependencies found unit.1 with ⟨rfl, rfl⟩ | ⟨other, same⟩
    · -- What is left of the old list is what was not on it: nothing.
      have none : ¬ (w.Indexes t j ∧ (j = j → t ∉ u.dependencies)) := fun ⟨edge, absent⟩ =>
        absent rfl ((accounted.index registered there).mp edge)
      rw [or_iff_left none, eq_self, true_and]
      rfl
    · have known : w.IsRegistered j v := ⟨same, lookup ▸ unit.2⟩
      simp only [other, false_and, false_or, false_implies, and_true]
      exact accounted.index known there
  · obtain ⟨y, old, same⟩ := before foundT
    obtain ⟨z, own, project⟩ := before foundJ
    rw [same, project]
    rcases (indexes_setDependencies_iff found).mp edge with ⟨rfl, mem⟩ | ⟨kept, _⟩
    · obtain ⟨v', unit, allowed⟩ := targets t mem
      rw [found] at own
      rw [unit.1] at old
      rw [← Option.some.inj own, ← Option.some.inj old]
      exact allowed
    · exact accounted.joined kept old own
  · rw [isLive]
    rcases of_unit?_setDependencies found unit.1 with ⟨_, rfl⟩ | ⟨_, same⟩
    · obtain ⟨x, there, _⟩ := targets t mem
      exact ⟨x, there⟩
    · exact accounted.settled ⟨same, lookup ▸ unit.2⟩ current t mem

/-- Units may go if nothing that is current depends on them afterwards. -/
theorem without (gone : List UnitId) (aged : (w.without gone).Ages later)
    (dropped : ∀ {id u}, later.IsRegistered id u → u.isResolved → ∀ t ∈ u.dependencies, t ∉ gone) :
    later.Accounted joins := by
  have filed := (accounted.filed.without gone).ages aged
  have lookup : ∀ {p path id}, later.lookup p path = some id ↔ w.lookup p path = some id ∧ id ∉ gone := by
    intro p path id
    rw [aged.lookup, lookup_without_iff accounted.filed.keys]
  have isLive : ∀ {id}, later.IsLive id ↔ w.IsLive id ∧ id ∉ gone := by
    intro id
    simp [filed.isLive_iff, accounted.filed.isLive_iff, lookup]
  have before : ∀ {id v}, later.IsRegistered id v → ∃ u, w.IsRegistered id u ∧ id ∉ gone ∧ u.Ages v := by
    rintro id v ⟨found, place⟩
    obtain ⟨u, unit, older⟩ := aged.of_unit? found
    rw [lookup, older.project, older.path] at place
    exact ⟨u, ⟨unit, place.1⟩, place.2, older⟩
  have indexes : ∀ {t id}, later.Indexes t id ↔ w.Indexes t id ∧ t ∉ gone ∧ id ∉ gone := by
    intro t id
    rw [Indexes, aged.dependents]
    simp [Workspace.without, Indexes]
  refine ⟨filed, fun found => accounted.places (lookup.mp found).1, fun found => ?_, fun edge => ?_,
    fun registered target => ?_, fun edge foundT foundU => ?_, fun registered current t mem => ?_⟩
  · obtain ⟨v, unit, older⟩ := aged.of_unit? found
    rw [older.dependencies, aged.size]
    exact accounted.targets unit
  · obtain ⟨old, first, second⟩ := indexes.mp edge
    obtain ⟨source, target⟩ := accounted.live old
    exact ⟨isLive.mpr ⟨source, first⟩, isLive.mpr ⟨target, second⟩⟩
  · obtain ⟨v, unit, kept, older⟩ := before registered
    obtain ⟨there, stays⟩ := isLive.mp target
    rw [indexes, older.dependencies, and_iff_left ⟨stays, kept⟩]
    exact accounted.index unit there
  · obtain ⟨x, first, olderT⟩ := aged.of_unit? foundT
    obtain ⟨y, second, olderU⟩ := aged.of_unit? foundU
    rw [olderT.project, olderU.project]
    exact accounted.joined (indexes.mp edge).1 first second
  · obtain ⟨v, unit, _, older⟩ := before registered
    have still := older.isResolved (accounted.filed.recorded unit.1) current
    have live := accounted.settled unit still t (older.dependencies ▸ mem)
    exact isLive.mpr ⟨live, dropped registered current t mem⟩

theorem ages (aged : w.Ages later) : later.Accounted joins :=
  accounted.without [] (by rw [without_nil]; exact aged) fun _ _ _ _ => List.not_mem_nil

theorem evict (p : ProjectId) : (w.evict p).2.Accounted joins := by
  refine accounted.without _ (Ages.invalidateAll _ _) fun registered current t mem stray => ?_
  obtain ⟨old, outside⟩ := (current_evict_iff accounted.filed current).mp registered
  have edge := (accounted.index old (accounted.settled old current t mem)).mpr mem
  exact outside ((mem_closure_strays_iff accounted.filed).mpr ⟨t, .inl stray, .single edge⟩)

end Accounted

/-- The workspaces that come about, with the dependencies that were last accepted for each unit. A record may come too
late, and then it is not accepted. -/
inductive Ledger (joins : ProjectId → ProjectId → Prop) : Workspace → (UnitId → List UnitId) → Prop where
  | start (projects : List ProjectConfig) (bodies : BodyCache) : Ledger joins (fresh projects bodies) fun _ => []
  | configure {w : Workspace} {accepted : UnitId → List UnitId} (p : ProjectId)
      (f : ProjectConfig → ProjectConfig) : Ledger joins w accepted → Ledger joins (w.configure p f) accepted
  | request {w : Workspace} {accepted : UnitId → List UnitId} {d : Disk} (p : ProjectId) (path : Text) :
      Ledger joins w accepted → Path.isAbsolute d.workingDirectory →
      Ledger joins (w.request p (d.absolute path)).2 accepted
  | tree {w : Workspace} {accepted : UnitId → List UnitId} (d : Disk) (canceled : Bool) (id : UnitId) :
      Ledger joins w accepted → Ledger joins (w.tree d canceled id).2 accepted
  | finishWaiting {w : Workspace} {accepted : UnitId → List UnitId} (d : Disk) :
      Ledger joins w accepted → Ledger joins (w.finishWaiting d) accepted
  | record {w : Workspace} {accepted : UnitId → List UnitId} {id : UnitId} {u : CompilationUnit}
      {ds : List UnitId} (version : Nat) (xs : List Diagnostic) :
      Ledger joins w accepted → w.IsRegistered id u →
      (∀ t ∈ ds, ∃ v, w.IsRegistered t v ∧ joins u.project v.project) →
      Ledger joins (w.setDependencies id version ds xs)
        (if u.version = version then Function.update accepted id ds else accepted)
  | invalidate {w : Workspace} {accepted : UnitId → List UnitId} (path : Text) :
      Ledger joins w accepted → Ledger joins (w.invalidate path).2 accepted
  | refresh {w : Workspace} {accepted : UnitId → List UnitId} (d : Disk) (path : Text) :
      Ledger joins w accepted → Ledger joins (w.refresh d path).2 accepted
  | reresolve {w : Workspace} {accepted : UnitId → List UnitId} (p : ProjectId) :
      Ledger joins w accepted → Ledger joins (w.reresolve p).2 accepted
  | evict {w : Workspace} {accepted : UnitId → List UnitId} (p : ProjectId) :
      Ledger joins w accepted → Ledger joins (w.evict p).2 accepted

/-- Whether a workspace is in order and its units have the dependencies that were accepted for them. -/
structure Balanced (joins : ProjectId → ProjectId → Prop) (w : Workspace) (accepted : UnitId → List UnitId) : Prop where
  accounted : w.Accounted joins
  accepted : ∀ id, accepted id = ((w.unit? id).map (·.dependencies)).getD []

namespace Balanced

variable {accepted : UnitId → List UnitId} (balanced : Balanced joins w accepted)

include balanced

theorem of_unit? (found : w.unit? id = some u) : accepted id = u.dependencies := by
  rw [balanced.accepted, found]
  rfl

/-- Units may go or age; what was accepted for them stays. -/
theorem without (accounted : later.Accounted joins)
    (gone : List UnitId) (aged : (w.without gone).Ages later) : Balanced joins later accepted := by
  refine ⟨accounted, fun id => ?_⟩
  rw [balanced.accepted]
  cases found : later.unit? id with
  | none =>
    have absent : w.unit? id = none := by
      rw [unit?, getElem?_eq_none_iff] at found ⊢
      exact aged.size ▸ found
    rw [absent]
  | some v =>
    obtain ⟨u, unit, older⟩ := aged.of_unit? found
    rw [show w.unit? id = some u from unit]
    exact older.dependencies.symm

theorem ages (aged : w.Ages later) : Balanced joins later accepted :=
  balanced.without (balanced.accounted.ages aged) [] (by rw [without_nil]; exact aged)

theorem request (normal : Path.IsNormal path) (p : ProjectId) : Balanced joins (w.request p path).2 accepted := by
  refine ⟨balanced.accounted.request normal p, fun id => ?_⟩
  rw [balanced.accepted]
  cases found : w.unit? id with
  | some u => rw [unit?_request found]
  | none =>
    cases new : (w.request p path).2.unit? id with
    | none => rfl
    | some v =>
      rcases of_unit?_request new with old | ⟨_, _, _, _, rfl⟩
      · rw [found] at old
        cases old
      · rfl

theorem record (registered : w.IsRegistered id u)
    (targets : ∀ t ∈ ds, ∃ v, w.IsRegistered t v ∧ joins u.project v.project) (version : Nat)
    (xs : List Diagnostic) :
    Balanced joins (w.setDependencies id version ds xs)
      (if u.version = version then Function.update accepted id ds else accepted) := by
  refine ⟨balanced.accounted.setDependencies registered version targets xs, fun j => ?_⟩
  split
  · rename_i now
    subst now
    rw [unit?_setDependencies registered.1]
    by_cases own : j = id
    · subst own
      rw [registered.1]
      simp [resolvedTo]
    · rw [Function.update_of_ne own, balanced.accepted]
      simp [Ne.symm own]
  · rename_i late
    rw [setDependencies_of_ne registered.1 late]
    exact balanced.accepted j

end Balanced

theorem Ledger.balanced {accepted : UnitId → List UnitId} (ledger : Ledger joins w accepted) :
    Balanced joins w accepted := by
  induction ledger with
  | start projects bodies => exact ⟨accounted_fresh joins projects bodies, fun _ => rfl⟩
  | configure p f _ ih => exact ih.ages ⟨rfl, rfl, rfl, fun found => ⟨_, found, .refl _⟩⟩
  | request p path _ working ih => exact ih.request (Disk.isNormal_absolute _ working path) p
  | tree d canceled id _ ih =>
    rw [tree_snd]
    exact ih.ages (.startParse _ d id)
  | finishWaiting d _ ih => exact ih.ages (.finishWaiting _ d)
  | record version xs _ registered targets ih => exact ih.record registered targets version xs
  | invalidate path _ ih | reresolve p _ ih => exact ih.ages (.invalidateAll _ _)
  | refresh d path _ ih =>
    rw [refresh_eq]
    exact ih.ages (.invalidateAll _ _)
  | evict p _ ih => exact ih.without (ih.accounted.evict p) _ (.invalidateAll _ _)

theorem mem_dependentsOf_iff : id ∈ w.dependentsOf t ↔ w.Indexes t id := by
  simp only [dependentsOf, sortByPath, List.mem_mergeSort, List.mem_map, List.mem_filter, beq_iff_eq]
  constructor
  · rintro ⟨⟨_, _⟩, ⟨edge, rfl⟩, rfl⟩
    exact edge
  · exact fun edge => ⟨(t, id), ⟨edge, rfl⟩, rfl⟩

/-- Of the units that are there, one is among the dependents of another exactly if its last accepted dependencies name
that. -/
theorem Ledger.mem_dependentsOf_iff_accepted {accepted : UnitId → List UnitId}
    (ledger : Ledger joins w accepted) :
    (∀ t id, w.IsLive t → w.IsLive id → (id ∈ w.dependentsOf t ↔ t ∈ accepted id)) ∧
    (∀ e ∈ w.dependents, w.IsLive e.1 ∧ w.IsLive e.2) ∧
    (w.registry.map (·.1)).Nodup ∧
    ∀ e ∈ w.registry, ∃ u, w.unit? e.2 = some u ∧ e.1 = (u.project, u.path) ∧ Path.IsNormal u.path := by
  have balanced := ledger.balanced
  have accounted := balanced.accounted
  refine ⟨fun t id target source => ?_, fun e member => accounted.live member, accounted.filed.keys,
    fun e member => ?_⟩
  · obtain ⟨u, registered⟩ := source
    rw [mem_dependentsOf_iff, accounted.index registered target, balanced.of_unit? registered.1]
  · have found := lookup_of_mem accounted.filed.keys member
    obtain ⟨u, unit, project, path⟩ := accounted.filed.registered found
    exact ⟨u, unit, by rw [project, path], path ▸ accounted.places found⟩

def sharedUnits : Workspace :=
  let fresh := fresh [{ name := "app", sourcePaths := ["/src"], extensions := [(".kn", .source)] }] {}
  let first := (fresh.request 0 (Disk.absolute {} "/src/A.kn")).2
  let second := (first.request 0 (Disk.absolute {} "/src/lib/../B.kn")).2
  (second.request 0 (Disk.absolute {} "/src/C.kn")).2

theorem ledger_sharedUnits (joins : ProjectId → ProjectId → Prop) : Ledger joins sharedUnits fun _ => [] :=
  (((Ledger.start _ _).request 0 _ rfl).request 0 _ rfl).request 0 _ rfl

/-- The second record replaces the first one, and the third one comes too late. -/
theorem mem_dependentsOf_sharedUnits :
    let first := sharedUnits.setDependencies 0 0 [1, 2] []
    let second := first.setDependencies 0 0 [2] []
    let late := second.setDependencies 0 7 [1] []
    0 ∈ late.dependentsOf 2 ∧ 0 ∉ late.dependentsOf 1 := by
  intro first second late
  have asked : sharedUnits.IsRegistered 0 _ ∧ sharedUnits.IsRegistered 1 _ ∧ sharedUnits.IsRegistered 2 _ :=
    ⟨⟨rfl, by decide⟩, ⟨rfl, by decide⟩, ⟨rfl, by decide⟩⟩
  have once := (ledger_sharedUnits fun _ _ => True).record 0 [] asked.1
    (List.forall_mem_cons.mpr ⟨⟨_, asked.2.1, trivial⟩, List.forall_mem_singleton.mpr ⟨_, asked.2.2, trivial⟩⟩)
  have there : first.IsRegistered 0 _ ∧ first.IsRegistered 2 _ := ⟨⟨rfl, by decide⟩, ⟨rfl, by decide⟩⟩
  have twice := once.record 0 [] there.1 (List.forall_mem_singleton.mpr ⟨_, there.2, trivial⟩)
  have still : second.IsRegistered 0 _ ∧ second.IsRegistered 1 _ := ⟨⟨rfl, by decide⟩, ⟨rfl, by decide⟩⟩
  have ledger := twice.record 7 [] still.1 (List.forall_mem_singleton.mpr ⟨_, still.2, trivial⟩)
  have live : late.IsLive 0 ∧ late.IsLive 1 ∧ late.IsLive 2 :=
    ⟨⟨_, rfl, by decide⟩, ⟨_, rfl, by decide⟩, ⟨_, rfl, by decide⟩⟩
  obtain ⟨index, _⟩ := ledger.mem_dependentsOf_iff_accepted
  exact ⟨(index 2 0 live.2.2 live.1).mpr (by decide), fun edge =>
    absurd ((index 1 0 live.2.1 live.1).mp edge) (by decide)⟩

end Workspace

end ScriptBuild
