import ScriptBuild.Proofs.Faithful

/-! Changes of the configuration. -/

namespace ScriptBuild

open Relation Option Workspace

variable {mappings : Dictionary Text} {w : Workspace} {d : Disk} {p : ProjectId}

/-- A change of the configuration of a project. -/
inductive Reconfiguration where
  | sourcePaths (paths : List Text)
  | libraryPaths (paths : List Text)
  | namespaces (mappings : Dictionary Text)
  | excludes (globs : List PathGlob)

namespace Reconfiguration

def config : Reconfiguration → ProjectConfig → ProjectConfig
  | .sourcePaths paths, c => { c with sourcePaths := paths }
  | .libraryPaths paths, c => { c with libraryPaths := paths }
  | .namespaces mappings, c => { c with namespaces := mappings }
  | .excludes globs, c => { c with excludes := globs }

def apply (w : Workspace) (p : ProjectId) : Reconfiguration → Workspace
  | .sourcePaths paths => w.setSourcePaths p paths
  | .libraryPaths paths => w.setLibraryPaths p paths
  | .namespaces mappings => w.setNamespaces p mappings
  | .excludes globs => w.setExcludes p globs

end Reconfiguration

variable {change : Reconfiguration}

namespace Workspace

variable {id : UnitId}

/-- A change drops a unit: it depends, directly or not, on a unit that the new configuration does not
describe, or on one with a name that was not found. -/
def Expels (w : Workspace) (p : ProjectId) (new : ProjectConfig) (id : UnitId) : Prop :=
  ∃ s, ((∃ v, w.IsRegistered s v ∧ v.project = p ∧ new.describe v.path = none) ∨ s ∈ w.unresolved p) ∧
    ReflTransGen w.Indexes s id

/-- Whoever finds something else in the new configuration is dropped. -/
def Adapts (w : Workspace) (d : Disk) (p : ProjectId) (change : Reconfiguration) : Prop :=
  ∀ id u r c, w.IsRegistered id u → u.isResolved → u.cell = .finished r → u.project = p → w.project? p = some c →
    (change.config c).links d u.path r.file = c.links d u.path r.file ∨ w.Expels p (change.config c) id

theorem describe_configure (w : Workspace) (p : ProjectId) (f : ProjectConfig → ProjectConfig) (path : Text) :
    (w.configure p f).describe p path = (w.project? p).bind fun c => (f c).describe path := by
  rw [describe, project?_configure]
  cases w.project? p <;> simp

/-- Without units that go, an eviction only resolves anew what was not found. -/
theorem reresolve_eq_evict (none : w.strays p = []) : (w.reresolve p).2 = (w.evict p).2 := by
  rw [evict_snd, unsettled, without, none]
  simp [reresolve]

theorem apply_eq_evict (ok : w.WellFormed) (known : w.Described) :
    change.apply w p = ((w.configure p change.config).evict p).2 := by
  cases change with
  | sourcePaths paths | libraryPaths paths | excludes globs => rfl
  | namespaces mappings =>
    refine reresolve_eq_evict (List.eq_nil_iff_forall_not_mem.mpr fun id stray => ?_)
    obtain ⟨u, registered, project, hidden⟩ := (mem_strays_iff (ok.configure p _).filed).mp stray
    -- Namespaces have no part in what is described.
    obtain ⟨c, config⟩ := ok.project registered.1
    have described := known _ _ _ registered.2
    rw [describe_eq config] at described
    rw [describe_configure, ← project, config] at hidden
    rw [show c.describe u.path = none from hidden] at described
    cases described

section Configured

variable (good : w.Coherent d) (f : ProjectConfig → ProjectConfig)

include good

theorem Coherent.mem_closure_configure {c : ProjectConfig} (config : w.project? p = some c) :
    id ∈ (w.configure p f).closure ((w.configure p f).strays p ++ (w.configure p f).unresolved p) ↔
      w.Expels p (f c) id := by
  have ok := good.wellFormed.configure p f
  rw [mem_closure_strays_iff ok.filed]
  simp only [mem_strays_iff ok.filed, describe_configure, config]
  rfl

theorem Coherent.described_configure : ((w.configure p f).evict p).2.Described := by
  refine described_evict (good.wellFormed.configure p f).filed fun q path id other place => ?_
  rw [describe, project?_configure]
  simp only [symm other, if_false, map_id']
  exact good.described q path id place

omit good in
theorem project?_evict_configure (q : ProjectId) :
    ((w.configure p f).evict p).2.project? q = (w.project? q).map fun c => if p = q then f c else c := by
  rw [← project?_configure, evict_snd, project?, projects_invalidateAll]
  rfl

/-- What the new configuration describes stays where it is. -/
theorem Coherent.lookup_evict_configure {q : ProjectId} {new : ProjectConfig} {path : Text}
    (config : ((w.configure p f).evict p).2.project? q = some new) (described : (new.describe path).isSome)
    (place : w.lookup q path = some id) : ((w.configure p f).evict p).2.lookup q path = some id := by
  have ok := good.wellFormed.configure p f
  refine (lookup_evict_iff ok.filed).mpr ⟨place, fun stray => ?_⟩
  obtain ⟨u, registered, project, hidden⟩ := (mem_strays_iff ok.filed).mp stray
  obtain ⟨own, same⟩ := good.wellFormed.place place registered.2
  rw [project?_evict_configure, ← project?_configure, own.trans project] at config
  rw [← same, describe_eq config] at hidden
  rw [hidden] at described
  cases described

end Configured

/-- A change keeps the records right exactly if all that it leads elsewhere is dropped. -/
theorem faithful_apply_iff (good : w.Coherent d) (p : ProjectId) (change : Reconfiguration) :
    (change.apply w p).Faithful d ↔ w.Adapts d p change := by
  have ok := good.wellFormed.configure p change.config
  -- The units that are left and current are those that the eviction did not reach.
  rw [apply_eq_evict good.wellFormed good.described,
    faithful_iff_allLinked (ok.evict p) (good.described_configure change.config),
    good.linked.iff_links_eq good.wellFormed]
  · constructor
    · intro same id u r c registered current tree project config
      subst project
      by_cases expelled : w.Expels u.project (change.config c) id
      · exact .inr expelled
      · refine .inl (same id u r c _ ?_ current tree config ?_)
        · refine (current_evict_iff ok.filed current).mpr ⟨registered, fun reached => expelled ?_⟩
          exact (good.mem_closure_configure change.config config).mp reached
        · rw [project?_evict_configure, config]
          simp
    · intro adapts id u r c c' registered current tree config config'
      obtain ⟨old, outside⟩ := (current_evict_iff ok.filed current).mp registered
      rw [project?_evict_configure, config] at config'
      rw [← some.inj config']
      split
      · rename_i own
        subst own
        refine (adapts id u r c old current tree rfl config).resolve_right fun expelled => outside ?_
        exact (good.mem_closure_configure change.config config).mpr expelled
      · rfl
  · intro id u registered current
    exact ((current_evict_iff ok.filed current).mp registered).1
  · intro q path id found
    exact ((lookup_evict_iff ok.filed).mp found).1
  · intro q new path id config described place
    exact good.lookup_evict_configure change.config config described place

theorem Coherent.apply (good : w.Coherent d) (adapts : w.Adapts d p change) : (change.apply w p).Coherent d := by
  have faithful := (faithful_apply_iff good p change).mpr adapts
  rw [apply_eq_evict good.wellFormed good.described] at faithful ⊢
  have ok := (good.wellFormed.configure p change.config).evict p
  have known := good.described_configure (p := p) change.config
  exact ⟨ok, known, (faithful_iff_allLinked ok known).mp faithful,
    Traced.evict (good.wellFormed.configure p _).filed ⟨good.traced.index, good.traced.owner⟩ p⟩

end Workspace

namespace ProjectConfig

variable {c new : ProjectConfig} {f : SourceFile}

/-- A reference leads where it led, or it led nowhere, or to what is not described any more. -/
def Notices (c new : ProjectConfig) (d : Disk) (f : SourceFile) (ref : Reference) : Prop :=
  new.find d f ref = c.find d f ref ∨ (∃ message, c.find d f ref = .missing message) ∨
    ∃ path, c.find d f ref = .unit path ∧ new.describe path = none

section

variable (fewer : ∀ path, (new.describe path).isSome → (c.describe path).isSome)

include fewer

/-- If fewer paths are described, a search ends where it did, unless that is not described any more. -/
theorem locate_of_fewer (d : Disk) (paths : List Text) :
    new.locate d paths = c.locate d paths ∨ ∃ path, c.locate d paths = some path ∧ new.describe path = none := by
  induction paths with
  | nil => exact .inl rfl
  | cons q paths ih =>
    rw [locate, locate]
    by_cases taken : ((d.stat q).isOk && (c.describe (d.absolute q)).isSome) = true
    · rw [if_pos taken]
      cases described : new.describe (d.absolute q) with
      | none => exact .inr ⟨_, rfl, described⟩
      | some spec =>
        rw [(Bool.and_eq_true_iff.mp taken).1]
        exact .inl rfl
    · have passed : ¬ ((d.stat q).isOk && (new.describe (d.absolute q)).isSome) = true := by
        intro still
        obtain ⟨there, described⟩ := Bool.and_eq_true_iff.mp still
        exact taken (Bool.and_eq_true_iff.mpr ⟨there, fewer _ described⟩)
      rw [if_neg taken, if_neg passed]
      exact ih

/-- If the same paths are searched and fewer of them are described, that is noticed. -/
theorem notices_of_fewer (resources : new.resourceCandidates = c.resourceCandidates)
    (candidates : new.candidates = c.candidates) {ref : Reference}
    (names : ref.kind = .resource ∨ new.qualifiedName f ref.name = c.qualifiedName f ref.name) :
    c.Notices new d f ref := by
  have paths : new.searchPaths f ref = c.searchPaths f ref := by
    rw [searchPaths, searchPaths, resources, candidates]
    rcases names with resource | same
    · simp [resource]
    · rw [same]
  have complaint : new.complaint f ref = c.complaint f ref := by
    unfold complaint
    rcases names with resource | same
    · simp [resource]
    · rw [same]
  rcases locate_of_fewer fewer d (c.searchPaths f ref) with same | ⟨path, found, hidden⟩
  · exact .inl (by rw [find_eq, find_eq, paths, complaint, same])
  · exact .inr (.inr ⟨path, find_eq_unit_iff.mpr found, hidden⟩)

end

/-- Further excludes are noticed by all whom they lead elsewhere. -/
theorem notices_excludes {globs : List PathGlob} (more : ∀ g ∈ c.excludes, g ∈ globs) (d : Disk)
    (f : SourceFile) (ref : Reference) : c.Notices { c with excludes := globs } d f ref := by
  have fewer : ∀ path, (describe { c with excludes := globs } path).isSome → (c.describe path).isSome := by
    intro path described
    have excluded : PathGlob.anyMatch c.excludes path → PathGlob.anyMatch globs path := by
      simp only [PathGlob.anyMatch, List.any_eq_true]
      exact fun ⟨g, mem, hit⟩ => ⟨g, more g mem, hit⟩
    unfold describe at described ⊢
    dsimp only at described
    split at described
    · cases described
    · split at described
      · cases described
      · rename_i kept
        rw [if_neg (mt excluded kept)]
        exact described
  exact notices_of_fewer fewer rfl rfl (.inr rfl)

variable (kept : ∀ lead package, c.namespaces.find? lead = some package → mappings.find? lead = some package)

include kept

theorem qualifiedName_namespaces (f : SourceFile) (name : Text) :
    c.qualifiedName f name = [] ∨
      qualifiedName { c with namespaces := mappings } f name = c.qualifiedName f name := by
  unfold qualifiedName
  split
  · rename_i lead localName _
    cases mapped : (f.namespaces.lookup lead).bind c.namespaces.find? with
    | none => exact .inl rfl
    | some package =>
      obtain ⟨uri, declared, found⟩ := bind_eq_some_iff.mp mapped
      have still : (f.namespaces.lookup lead).bind mappings.find? = some package := by
        rw [declared]
        exact kept uri package found
      exact .inr (by rw [still])
  · exact .inr rfl

/-- Further namespaces are noticed by all whom they lead elsewhere. -/
theorem notices_namespaces (d : Disk) (f : SourceFile) (ref : Reference) :
    c.Notices { c with namespaces := mappings } d f ref := by
  have fewer : ∀ path, (describe { c with namespaces := mappings } path).isSome →
      (c.describe path).isSome := fun _ described => described
  by_cases resource : ref.kind = .resource
  · exact notices_of_fewer fewer rfl rfl (.inl resource)
  · rcases qualifiedName_namespaces kept f ref.name with unmapped | same
    · refine .inr (.inl ⟨"no namespace mapping for " ++ ref.name, ?_⟩)
      rw [find, if_neg (by simpa using resource), unmapped]
      rfl
    · exact notices_of_fewer fewer rfl rfl (.inr same)

end ProjectConfig

/-- What the references of all units notice is heeded. -/
theorem Workspace.Coherent.adapts (good : w.Coherent d) (notices : ∀ id u r c, w.IsRegistered id u →
    u.isResolved → u.cell = .finished r → u.project = p → w.project? p = some c → ∀ ref ∈ r.file.references,
    c.Notices (change.config c) d r.file ref) : w.Adapts d p change := by
  intro id u r c registered current tree project config
  subst project
  by_cases same : ∀ ref ∈ r.file.references, (change.config c).find d r.file ref = c.find d r.file ref
  · exact .inl (ProjectConfig.linksFrom_congr same {})
  · push Not at same
    obtain ⟨ref, mem, differs⟩ := same
    rcases (notices id u r c registered current tree rfl config ref mem).resolve_left differs with
      ⟨message, missing⟩ | ⟨path, found, hidden⟩
    · have pending := good.mem_unresolved registered current tree config mem missing
      exact .inr ⟨id, .inr pending, .refl⟩
    · obtain ⟨s, place, reached⟩ := good.exists_indexes registered current tree config mem found
      obtain ⟨v, unit, project, same⟩ := good.wellFormed.filed.isRegistered place
      exact .inr ⟨s, .inl ⟨v, unit, project, same ▸ hidden⟩, reached⟩

namespace Reconfiguration

/-- The changes that a workspace keeps track of by itself. -/
inductive IsTracked (w : Workspace) (d : Disk) (p : ProjectId) : Reconfiguration → Prop where
  /-- More is excluded than before. -/
  | exclude {globs : List PathGlob} :
      (∀ c, w.project? p = some c → ∀ g ∈ c.excludes, g ∈ globs) → IsTracked w d p (.excludes globs)
  /-- More is mapped than before. -/
  | declare {mappings : Dictionary Text} :
      (∀ c, w.project? p = some c → ∀ uri package, c.namespaces.find? uri = some package →
        mappings.find? uri = some package) → IsTracked w d p (.namespaces mappings)
  /-- All references go on to lead where they led, apart from those that led nowhere, or to what is not
  described any more. -/
  | notice {change : Reconfiguration} :
      (∀ id u r c, w.IsRegistered id u → u.isResolved → u.cell = .finished r → u.project = p →
        w.project? p = some c → ∀ ref ∈ r.file.references, c.Notices (change.config c) d r.file ref) →
      IsTracked w d p change

theorem IsTracked.adapts (tracked : change.IsTracked w d p) (good : w.Coherent d) : w.Adapts d p change := by
  cases tracked with
  | exclude more =>
    exact good.adapts fun _ _ r c _ _ _ _ config ref _ => c.notices_excludes (more c config) d r.file ref
  | declare kept =>
    exact good.adapts fun _ _ r c _ _ _ _ config ref _ => c.notices_namespaces (kept c config) d r.file ref
  | notice notices => exact good.adapts notices

end Reconfiguration

/-- The workspaces that requests and permitted changes of the configuration lead to, over files that stay
as they are. -/
inductive Reconfigured (d : Disk) (permits : Workspace → ProjectId → Reconfiguration → Prop) : Workspace → Prop where
  | start (projects : List ProjectConfig) (bodies : BodyCache) :
      Reconfigured d permits (fresh projects bodies)
  | request {w : Workspace} (p : ProjectId) (path : Text) : Reconfigured d permits w →
      Reconfigured d permits (w.request p (d.absolute path)).2
  | tree {w : Workspace} (canceled : Bool) (id : UnitId) : Reconfigured d permits w →
      Reconfigured d permits (w.tree d canceled id).2
  | dependencies {w : Workspace} (canceled : Bool) (id : UnitId) : Reconfigured d permits w →
      Reconfigured d permits (w.dependencies d canceled id).2
  | change {w : Workspace} (p : ProjectId) (change : Reconfiguration) : Reconfigured d permits w →
      permits w p change → Reconfigured d permits (change.apply w p)

theorem Reconfigured.coherent (run : Reconfigured d (fun w p change => w.Adapts d p change) w) : w.Coherent d := by
  induction run with
  | start projects bodies => exact .fresh projects bodies d
  | request p path _ ih => exact ih.request p _
  | tree canceled id _ ih => exact ih.tree canceled id
  | dependencies canceled id _ ih => exact ih.dependencies canceled id
  | change p change _ adapts ih => exact ih.apply adapts

/-- As long as the workspace adapts to all changes of the configuration, resolving again gives what is recorded; it
adapts to all that are tracked. -/
theorem Reconfigured.faithful_apply_iff_adapts
    (run : Reconfigured d (fun w p change => w.Adapts d p change) w) (p : ProjectId)
    (change : Reconfiguration) :
    w.Faithful d ∧ ((change.apply w p).Faithful d ↔ w.Adapts d p change) ∧
      (change.IsTracked w d p → w.Adapts d p change) :=
  ⟨run.coherent.faithful, faithful_apply_iff run.coherent p change,
    fun tracked => tracked.adapts run.coherent⟩

def remoteFiles : Disk :=
  { entries := [("/src/A.kn", { content := "import B" }), ("/new/B.kn", { content := "class B" })] }

def remoteUnits : Workspace :=
  let asked := (fresh [mutualProject] {}).request 0 (remoteFiles.absolute "/src/A.kn")
  (asked.2.dependencies remoteFiles false 0).2

def widened : Workspace := Reconfiguration.apply remoteUnits 0 (.sourcePaths ["/src", "/new"])

theorem faithful_widened :
    widened.Faithful remoteFiles ∧
      (Reconfiguration.apply widened 0 (.namespaces [("u", "one")])).Faithful remoteFiles := by
  have adapts : remoteUnits.Adapts remoteFiles 0 (.sourcePaths ["/src", "/new"]) := by
    intro id u r c registered current tree project config
    have only : id = 0 := by
      have bound := lt_length_of_unit? registered.1
      rw [show remoteUnits.pool.length = 1 by decide +kernel] at bound
      exact Nat.lt_one_iff.mp bound
    subst only
    exact Or.inr ⟨0, Or.inr (by decide +kernel), .refl⟩
  have start : Reconfigured remoteFiles (fun w p change => w.Adapts remoteFiles p change)
      (fresh [mutualProject] {}) := .start _ _
  have run : Reconfigured remoteFiles (fun w p change => w.Adapts remoteFiles p change) widened :=
    ((start.request 0 "/src/A.kn").dependencies false 0).change 0 _ adapts
  obtain ⟨faithful, next, tracked⟩ := run.faithful_apply_iff_adapts 0 (.namespaces [("u", "one")])
  refine ⟨faithful, next.mpr (tracked (.declare fun c config uri package found => ?_))⟩
  have unmapped : (widened.project? 0).map (·.namespaces) = some [] := by decide +kernel
  rw [config, Option.map_some] at unmapped
  rw [Option.some.inj unmapped] at found
  cases found

def rivalFiles : Disk :=
  { entries :=
      [("/src/A.kn", { content := "import B" }), ("/src/B.kn", { content := "class B" }),
        ("/new/B.kn", { content := "class B" })] }

def rivalUnits : Workspace :=
  let asked := (fresh [mutualProject] {}).request 0 (rivalFiles.absolute "/src/A.kn")
  (asked.2.dependencies rivalFiles false 0).2

/-- A root that comes before the one where an import was found is not noticed. -/
theorem not_faithful_rivalUnits :
    Reconfigured rivalFiles (fun _ _ _ => True) (Reconfiguration.apply rivalUnits 0 (.sourcePaths ["/new", "/src"])) ∧
      ¬ (Reconfiguration.apply rivalUnits 0 (.sourcePaths ["/new", "/src"])).Faithful rivalFiles := by
  constructor
  · have start : Reconfigured rivalFiles (fun _ _ _ => True) (fresh [mutualProject] {}) :=
      .start _ _
    exact ((start.request 0 "/src/A.kn").dependencies false 0).change 0 _ trivial
  · intro faithful
    have outdated : (Reconfiguration.apply rivalUnits 0 (.sourcePaths ["/new", "/src"])).isOutdated
        rivalFiles 0 = true := by
      decide +kernel
    rw [faithful.isOutdated_eq_false] at outdated
    cases outdated

end ScriptBuild
