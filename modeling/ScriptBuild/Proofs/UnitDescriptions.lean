import ScriptBuild.Proofs.EvictedUnits
import ScriptBuild.Proofs.Reconfiguration

/-! The descriptions that units were made with against those of the present configuration. -/

namespace ScriptBuild

open Option Workspace

namespace ProjectConfig

variable {c : ProjectConfig} {path : Text} {spec new : UnitSpec} {change : Reconfiguration}

theorem describe_eq_some (described : c.describe path = some spec) :
    ∃ relative, c.extensions.find? (Path.ext path) = some spec.kind ∧
      c.relative? (Path.clean path) = some (relative, spec.isLibrary) ∧
      spec.name = nameOf spec.kind relative := by
  unfold describe at described
  split at described
  · cases described
  · rename_i kind known
    split at described
    · cases described
    · obtain ⟨⟨relative, isLibrary⟩, found, rfl⟩ := map_eq_some_iff.mp described
      exact ⟨relative, known, found, rfl⟩

variable (described : c.describe path = some spec) (again : (change.config c).describe path = some new)

include described again

/-- No change has a part in which extensions there are. -/
theorem kind_eq_of_describe : spec.kind = new.kind := by
  obtain ⟨_, known, _⟩ := describe_eq_some described
  obtain ⟨_, still, _⟩ := describe_eq_some again
  have same : (change.config c).extensions = c.extensions := by cases change <;> rfl
  rw [same, known] at still
  exact some.inj still

/-- A path that is below the same root as before has the same description. -/
theorem eq_of_describe
    (roots : ∀ a b, c.relative? (Path.clean path) = some a → (change.config c).relative? (Path.clean path) = some b → a = b) :
    spec = new := by
  have kind := kind_eq_of_describe described again
  obtain ⟨relative, _, found, name⟩ := describe_eq_some described
  obtain ⟨other, _, place, title⟩ := describe_eq_some again
  obtain ⟨same, library⟩ := Prod.mk.inj (roots _ _ found place)
  obtain ⟨_, _, _⟩ := spec
  obtain ⟨_, _, _⟩ := new
  dsimp only at kind library name title
  rw [name, title, kind, library, same]

end ProjectConfig

namespace Reconfiguration

/-- The changes after which every path that is described is described as before. -/
inductive IsHarmless (c : ProjectConfig) : Reconfiguration → Prop where
  | excludes (globs : List PathGlob) : IsHarmless c (.excludes globs)
  | namespaces (mappings : Dictionary Text) : IsHarmless c (.namespaces mappings)
  /-- Further roots, after those that there are. -/
  | extend {change : Reconfiguration} : c.roots <+: (change.config c).roots → IsHarmless c change
  /-- Other roots, if nothing lies below an old root and also below a new one that is not the same. -/
  | apart {change : Reconfiguration} :
      (∀ r ∈ c.roots, ∀ s ∈ (change.config c).roots, ∀ path, (Path.below? r.1 path).isSome →
        (Path.below? s.1 path).isSome → r = s) → IsHarmless c change

theorem IsHarmless.relative?_eq {c : ProjectConfig} {change : Reconfiguration} (harmless : change.IsHarmless c)
    {path : Text} {a b : Text × Bool} (found : c.relative? path = some a)
    (again : (change.config c).relative? path = some b) : a = b := by
  cases harmless with
  | excludes globs | namespaces mappings => exact some.inj (found.symm.trans again)
  | extend more =>
    obtain ⟨rest, roots⟩ := more
    unfold ProjectConfig.relative? at found again
    rw [← roots, List.findSome?_append, found] at again
    exact some.inj again
  | apart unnested =>
    obtain ⟨r, inside, first⟩ := List.exists_of_findSome?_eq_some found
    obtain ⟨s, within, second⟩ := List.exists_of_findSome?_eq_some again
    obtain ⟨x, below, rfl⟩ := map_eq_some_iff.mp first
    obtain ⟨y, beneath, rfl⟩ := map_eq_some_iff.mp second
    have same := unnested r inside s within path (by rw [below]; rfl) (by rw [beneath]; rfl)
    subst same
    rw [some.inj (below.symm.trans beneath)]

end Reconfiguration

namespace Workspace

variable {w : Workspace} {d : Disk} {p : ProjectId} {id : UnitId} {u v : CompilationUnit}
  {change : Reconfiguration} {R : UnitSpec → UnitSpec → Prop}

/-- Whether every unit is described as it was when it was made. -/
def Accurate (w : Workspace) : Prop :=
  ∀ id u, w.IsRegistered id u → w.describe u.project u.path = some u.spec

/-- Whether every unit is described, and its own description stands in a relation to the present one. -/
def Agrees (w : Workspace) (R : UnitSpec → UnitSpec → Prop) : Prop :=
  ∀ id u, w.IsRegistered id u → ∃ spec, w.describe u.project u.path = some spec ∧ R u.spec spec

theorem accurate_iff_agrees : w.Accurate ↔ w.Agrees Eq := by
  constructor
  · exact fun accurate id u registered => ⟨u.spec, accurate id u registered, rfl⟩
  · intro agrees id u registered
    obtain ⟨spec, described, rfl⟩ := agrees id u registered
    exact described

/-- Whether a change describes the units of its project that stay as before. -/
def Retains (w : Workspace) (p : ProjectId) (change : Reconfiguration) : Prop :=
  ∀ id u spec, w.IsRegistered id u → u.project = p →
    (w.configure p change.config).describe p u.path = some spec → w.describe p u.path = some spec

/-- Whether a relation to the old descriptions holds of the new ones too. -/
def Carries (w : Workspace) (R : UnitSpec → UnitSpec → Prop) (p : ProjectId) (change : Reconfiguration) : Prop :=
  ∀ id u spec new, w.IsRegistered id u → u.project = p → w.describe p u.path = some spec →
    (w.configure p change.config).describe p u.path = some new → R u.spec spec → R u.spec new

theorem Retains.carries (retains : w.Retains p change) : w.Carries Eq p change := by
  rintro id u _ new registered project described again rfl
  have same := retains id u new registered project again
  exact some.inj (described.symm.trans same)

theorem carries_kind (w : Workspace) (p : ProjectId) (change : Reconfiguration) :
    w.Carries (fun a b => a.kind = b.kind) p change := by
  intro id u spec new _ _ described again kind
  rw [describe_configure] at again
  obtain ⟨c, config, again⟩ := bind_eq_some_iff.mp again
  rw [describe_eq config] at described
  exact kind.trans (ProjectConfig.kind_eq_of_describe described again)

theorem Retains.of_isHarmless (known : w.Described)
    (harmless : ∀ c, w.project? p = some c → change.IsHarmless c) : w.Retains p change := by
  rintro id u new ⟨_, place⟩ rfl again
  obtain ⟨spec, described⟩ := isSome_iff_exists.mp (known _ _ _ place)
  rw [describe_configure] at again
  obtain ⟨c, config, again⟩ := bind_eq_some_iff.mp again
  rw [describe_eq config] at described ⊢
  rw [described, ProjectConfig.eq_of_describe described again fun a b => (harmless c config).relative?_eq]

namespace Agrees

variable (agrees : w.Agrees R)

include agrees

theorem described (filed : w.Filed) : w.Described := by
  intro p path id found
  obtain ⟨u, registered, rfl, rfl⟩ := filed.isRegistered found
  obtain ⟨spec, described, _⟩ := agrees id u registered
  rw [described]
  rfl

theorem request (reflexive : ∀ spec, R spec spec) (p : ProjectId) (path : Text) : (w.request p path).2.Agrees R := by
  intro id u registered
  rw [(Grows.request w p path).describe]
  rcases of_unit?_request registered.1 with old | ⟨_, _, spec, described, rfl⟩
  · exact agrees id u (isRegistered_of_request (lt_length_of_unit? old) registered)
  · exact ⟨spec, described, reflexive spec⟩

theorem stays {later : Workspace} (stays : w.Stays later) : later.Agrees R := by
  rintro id v ⟨found, place⟩
  obtain ⟨u, old, project, path, spec⟩ := stays.unit found
  rw [stays.lookup, ← project, ← path] at place
  rw [describe, project?, stays.projects, ← project, ← path, ← spec]
  exact agrees id u ⟨old, place⟩

theorem dependencies (reflexive : ∀ spec, R spec spec) (ok : w.WellFormed) (d : Disk) (canceled : Bool)
    (id : UnitId) : (w.dependencies d canceled id).2.Agrees R := by
  exact dependencies_preserves (motive := fun x => x.Agrees R) ok (agrees.described ok.filed) agrees
    (agrees.stays (.startParse w d id)) (fun _ _ _ later => later.request reflexive _ _)
    (fun _ done later => later.stays (.setDependencies done.unit _ _)) canceled

end Agrees

/-- The units after an eviction are those that are still described, as they were made. -/
theorem of_isRegistered_evict (filed : w.Filed) (registered : (w.evict p).2.IsRegistered id v) :
    ∃ u, w.IsRegistered id u ∧ u.Ages v ∧ (u.project = p → (w.describe p u.path).isSome) := by
  obtain ⟨found, place⟩ := registered
  obtain ⟨place, stays⟩ := (lookup_evict_iff filed).mp place
  obtain ⟨u, unit, aged⟩ := (Ages.invalidateAll (w.without (w.strays p)) (w.unsettled p)).of_unit? found
  rw [aged.project, aged.path] at place
  exact ⟨u, ⟨unit, place⟩, aged, (not_mem_strays_iff filed place).mp stays⟩

theorem exists_isRegistered_evict (filed : w.Filed) (registered : w.IsRegistered id u)
    (described : u.project = p → (w.describe p u.path).isSome) :
    ∃ v, (w.evict p).2.IsRegistered id v ∧ u.Ages v := by
  obtain ⟨v, unit, aged⟩ := (Ages.invalidateAll (w.without (w.strays p)) (w.unsettled p)).unit registered.1
  refine ⟨v, ⟨unit, (lookup_evict_iff filed).mpr ?_⟩, aged⟩
  rw [aged.project, aged.path]
  exact ⟨registered.2, (not_mem_strays_iff filed registered.2).mpr described⟩

theorem Agrees.apply (agrees : w.Agrees R) (ok : w.WellFormed) (carries : w.Carries R p change) :
    (change.apply w p).Agrees R := by
  have filed := (ok.configure p change.config).filed
  rw [apply_eq_evict ok (agrees.described ok.filed)]
  intro id v registered
  obtain ⟨u, old, aged, stays⟩ := of_isRegistered_evict filed registered
  rw [describe_evict, aged.project, aged.path, aged.spec]
  obtain ⟨spec, described, related⟩ := agrees id u old
  by_cases own : u.project = p
  · obtain ⟨new, again⟩ := isSome_iff_exists.mp (stays own)
    rw [own] at described ⊢
    exact ⟨new, again, carries id u spec new old own described again related⟩
  · refine ⟨spec, ?_, related⟩
    rw [describe, project?_configure]
    simpa [Ne.symm own, describe] using described

/-- A change leaves all descriptions right exactly if it describes the units that stay as before. -/
theorem Accurate.apply_iff_retains (accurate : w.Accurate) (ok : w.WellFormed) :
    (change.apply w p).Accurate ↔ w.Retains p change := by
  have agrees := accurate_iff_agrees.mp accurate
  constructor
  · rintro after id u spec registered rfl again
    rw [apply_eq_evict ok (agrees.described ok.filed)] at after
    obtain ⟨v, stays, aged⟩ := exists_isRegistered_evict
      (ok.configure u.project change.config).filed registered fun _ => by rw [again]; rfl
    have now := after id v stays
    rw [describe_evict, aged.project, aged.path, aged.spec, again] at now
    rw [accurate id u registered, some.inj now]
  · exact fun retains => accurate_iff_agrees.mpr (agrees.apply ok retains.carries)

/-- The workspaces that requests, builds and changes of projects lead to, with the changes that were made. -/
inductive Lifetime : List (Workspace × ProjectId × Reconfiguration) → Workspace → Prop where
  | start (projects : List ProjectConfig) (bodies : BodyCache) : Lifetime [] (fresh projects bodies)
  | request {log : List (Workspace × ProjectId × Reconfiguration)} {w : Workspace} (d : Disk) (p : ProjectId)
      (path : Text) : Lifetime log w → Lifetime log (w.request p (d.absolute path)).2
  | resolve {log : List (Workspace × ProjectId × Reconfiguration)} {w : Workspace} (d : Disk) (p : ProjectId)
      (qname : Text) : Lifetime log w → Lifetime log (w.resolve d p qname).2
  | tree {log : List (Workspace × ProjectId × Reconfiguration)} {w : Workspace} (d : Disk) (canceled : Bool)
      (id : UnitId) : Lifetime log w → Lifetime log (w.tree d canceled id).2
  | dependencies {log : List (Workspace × ProjectId × Reconfiguration)} {w : Workspace} (d : Disk)
      (canceled : Bool) (id : UnitId) : Lifetime log w → Lifetime log (w.dependencies d canceled id).2
  | build {log : List (Workspace × ProjectId × Reconfiguration)} {w : Workspace} {σ : Type} (b : Builder σ)
      (world : σ) (path : Text) : Lifetime log w → Lifetime log (b.build ⟨w, world⟩ path).2.workspace
  | change {log : List (Workspace × ProjectId × Reconfiguration)} {w : Workspace} (p : ProjectId)
      (change : Reconfiguration) : Lifetime log w → Lifetime ((w, p, change) :: log) (change.apply w p)

theorem firstUnit_preserves {motive : Workspace → Prop}
    (request : ∀ x path, motive x → motive (x.request p (d.absolute path)).2) (paths : List Text) :
    ∀ {w : Workspace}, motive w → motive (w.firstUnit d p paths).2 := by
  induction paths with
  | nil => exact fun start => start
  | cons path paths ih =>
    intro w start
    rw [firstUnit_cons]
    split
    · split
      · exact request w path start
      · exact ih (request w path start)
    · exact ih start

/-- If all changes carry a relation between descriptions, the units agree with the present configuration. -/
theorem Lifetime.agrees {log : List (Workspace × ProjectId × Reconfiguration)} (lifetime : Lifetime log w)
    (reflexive : ∀ spec, R spec spec) (carries : ∀ e ∈ log, e.1.Carries R e.2.1 e.2.2) :
    w.WellFormed ∧ w.Agrees R := by
  have request : ∀ (x : Workspace) (q : ProjectId) (path : Text), x.WellFormed ∧ x.Agrees R →
      (x.request q path).2.WellFormed ∧ (x.request q path).2.Agrees R :=
    fun x q path ⟨ok, agrees⟩ => ⟨ok.request q path, agrees.request reflexive q path⟩
  have parse : ∀ (x : Workspace) (d : Disk) (id : UnitId), x.WellFormed ∧ x.Agrees R →
      (x.startParse d id).WellFormed ∧ (x.startParse d id).Agrees R :=
    fun x d id ⟨ok, agrees⟩ => ⟨ok.startParse d id, agrees.stays (.startParse x d id)⟩
  have dependencies : ∀ (x : Workspace) (d : Disk) (canceled : Bool) (id : UnitId), x.WellFormed ∧ x.Agrees R →
      (x.dependencies d canceled id).2.WellFormed ∧ (x.dependencies d canceled id).2.Agrees R :=
    fun x d canceled id ⟨ok, agrees⟩ =>
      ⟨(dependencies_grows ok (agrees.described ok.filed) d canceled id).1,
        agrees.dependencies reflexive ok d canceled id⟩
  induction lifetime with
  | start projects bodies => exact ⟨wellFormed_fresh projects bodies, fun id u registered => nomatch registered.1⟩
  | request d p path _ ih => exact request _ p _ (ih carries)
  | resolve d p qname _ ih => exact firstUnit_preserves (fun x path good => request x p _ good) _ (ih carries)
  | tree d canceled id _ ih =>
    rw [tree_snd]
    exact parse _ d id (ih carries)
  | dependencies d canceled id _ ih => exact dependencies _ d canceled id (ih carries)
  | build b world path _ ih =>
    have keeps : b.Keeps fun s => s.workspace.WellFormed ∧ s.workspace.Agrees R := by
      refine ⟨fun s path good => request _ _ _ good, fun s id good => parse _ _ id good,
        fun s canceled id good => dependencies _ _ canceled id good, fun s cache ⟨ok, agrees⟩ => ?_,
        fun s good => good, fun s name text good => good⟩
      exact ⟨⟨ok.keys, ok.registered, ok.unit, ok.project, ok.targets, ok.indexed⟩, agrees⟩
    exact keeps.build (ih carries) path
  | change p change _ ih =>
    obtain ⟨here, earlier⟩ := List.forall_mem_cons.mp carries
    obtain ⟨ok, agrees⟩ := ih earlier
    refine ⟨?_, agrees.apply ok here⟩
    rw [apply_eq_evict ok (agrees.described ok.filed)]
    exact (ok.configure p change.config).evict p

/-- The kind of a unit is always right. Name and library are right as long as every change describes the units that
stay as before. -/
theorem Lifetime.accurate_apply_iff {log : List (Workspace × ProjectId × Reconfiguration)}
    (lifetime : Lifetime log w) (p : ProjectId) (change : Reconfiguration) :
    (∀ id u, w.IsRegistered id u → ∃ spec, w.describe u.project u.path = some spec ∧ u.spec.kind = spec.kind) ∧
    ((∀ e ∈ log, e.1.Retains e.2.1 e.2.2) → w.Accurate) ∧
    (w.Accurate → ((change.apply w p).Accurate ↔ w.Retains p change)) ∧
    ((∀ c, w.project? p = some c → change.IsHarmless c) → w.Retains p change) := by
  obtain ⟨ok, kinds⟩ := lifetime.agrees (R := fun a b => a.kind = b.kind) (fun _ => rfl)
    fun e _ => carries_kind e.1 e.2.1 e.2.2
  refine ⟨kinds, fun retains => ?_, fun accurate => accurate.apply_iff_retains ok,
    Retains.of_isHarmless (kinds.described ok.filed)⟩
  exact accurate_iff_agrees.mpr (lifetime.agrees (fun _ => rfl) fun e member => (retains e member).carries).2

/-- A unit in a folder below the root. -/
def nestedUnits : Workspace := ((fresh [mutualProject] {}).request 0 (Disk.absolute {} "/src/a/B.kn")).2

theorem lifetime_nestedUnits : Lifetime [] nestedUnits := (Lifetime.start [mutualProject] {}).request {} 0 _

/-- A root that is added behind the others changes no description. -/
theorem accurate_extendedUnits :
    (Reconfiguration.apply nestedUnits 0 (.sourcePaths ["/src", "/src/a"])).Accurate := by
  obtain ⟨_, accurate, next, harmless⟩ :=
    lifetime_nestedUnits.accurate_apply_iff 0 (.sourcePaths ["/src", "/src/a"])
  refine (next (accurate fun e member => absurd member List.not_mem_nil)).mpr (harmless fun c config => .extend ?_)
  rw [show nestedUnits.project? 0 = some mutualProject from rfl] at config
  rw [← Option.some.inj config]
  decide

/-- If the folder becomes the root, the unit keeps the name it had. -/
theorem not_accurate_movedUnits :
    ∃ log, Lifetime log (Reconfiguration.apply nestedUnits 0 (.sourcePaths ["/src/a"])) ∧
      ¬ (Reconfiguration.apply nestedUnits 0 (.sourcePaths ["/src/a"])).Accurate := by
  refine ⟨_, lifetime_nestedUnits.change 0 _, fun accurate => ?_⟩
  have stale := accurate 0 _ ⟨rfl, by decide +kernel⟩
  exact absurd stale (by decide +kernel)

end Workspace

end ScriptBuild
