import ScriptBuild.Proofs.WorkspaceGrowth

/-! A reference is found by the configuration of its project and the files that are there. -/

namespace ScriptBuild

open List Subset ProjectConfig

variable {refs : List Reference} {c : ProjectConfig} {paths : List Text} {id : UnitId} {path : Text}
  {later : Workspace} {ds : List UnitId}

/-- What a reference turns out to be. -/
inductive Finding where
  | unit (path : Text)
  | missing (message : Text)
  | builtIn

/-- The units that a file refers to by their paths, and what is said about its references. -/
@[ext]
structure Links where
  targets : List Text := []
  diagnostics : List Diagnostic := []

/-- Adds what was found for a reference in the file at `self`. -/
def Links.add (self : Text) (line : Nat) (l : Links) : Finding → Links
  | .unit path =>
    if path == self || l.targets.contains path then l else { l with targets := l.targets ++ [path] }
  | .missing message =>
    { l with diagnostics := l.diagnostics ++ [.warning .unresolved self line message] }
  | .builtIn => l

namespace ProjectConfig

def locate (c : ProjectConfig) (d : Disk) : List Text → Option Text
  | [] => none
  | path :: paths =>
    if (d.stat path).isOk && (c.describe (d.absolute path)).isSome then some (d.absolute path)
    else c.locate d paths

def find (c : ProjectConfig) (d : Disk) (f : SourceFile) (ref : Reference) : Finding :=
  if ref.kind == .resource then
    match c.locate d (c.resourceCandidates ref.name) with
    | some path => .unit path
    | none => .missing ("resource " ++ ref.name ++ " not found")
  else if (c.qualifiedName f ref.name).isEmpty then .missing ("no namespace mapping for " ++ ref.name)
  else
    match c.locate d (c.candidates (c.qualifiedName f ref.name)) with
    | some path => .unit path
    | none =>
      if Workspace.needsWarning ref then
        .missing ("cannot resolve " ++ c.qualifiedName f ref.name ++ " (" ++ ref.kind.label ++ ")")
      else .builtIn

def linksFrom (c : ProjectConfig) (d : Disk) (self : Text) (f : SourceFile) (l : Links)
    (refs : List Reference) : Links :=
  refs.foldl (fun l ref => l.add self ref.line (c.find d f ref)) l

def links (c : ProjectConfig) (d : Disk) (self : Text) (f : SourceFile) : Links :=
  c.linksFrom d self f {} f.references

/-- Whether a path is one that is looked up from a root. -/
def Searches (c : ProjectConfig) (path : Text) : Prop :=
  ∃ root ∈ c.roots, ∃ relative, path = Path.join [root.1, relative]

variable {d : Disk} {self : Text} {f : SourceFile} {ref : Reference} {finding : Finding} {l : Links}

/-- The paths where a reference is looked up: for a resource by its path, for any other one by its qualified name. -/
def searchPaths (c : ProjectConfig) (f : SourceFile) (ref : Reference) : List Text :=
  if ref.kind == .resource then c.resourceCandidates ref.name else c.candidates (c.qualifiedName f ref.name)

/-- What is said about a reference that leads to no unit. -/
def complaint (c : ProjectConfig) (f : SourceFile) (ref : Reference) : Option Text :=
  if ref.kind == .resource then some ("resource " ++ ref.name ++ " not found")
  else if (c.qualifiedName f ref.name).isEmpty then some ("no namespace mapping for " ++ ref.name)
  else if Workspace.needsWarning ref then
    some ("cannot resolve " ++ c.qualifiedName f ref.name ++ " (" ++ ref.kind.label ++ ")")
  else none

theorem searches_of_candidate {qname : Text} (mem : path ∈ c.candidates qname) : c.Searches path := by
  unfold candidates at mem
  split at mem
  · cases mem
  · obtain ⟨root, found, inside⟩ := mem_flatMap.mp mem
    obtain ⟨extension, _, same⟩ := mem_map.mp inside
    exact ⟨root, found, _, same.symm⟩

theorem searches_of_resourceCandidate {relative : Text} (mem : path ∈ c.resourceCandidates relative) :
    c.Searches path := by
  obtain ⟨root, found, same⟩ := mem_map.mp mem
  exact ⟨root, found, relative, same.symm⟩

theorem searches_of_mem_searchPaths (mem : path ∈ c.searchPaths f ref) : c.Searches path := by
  unfold searchPaths at mem
  split at mem
  · exact searches_of_resourceCandidate mem
  · exact searches_of_candidate mem

/-- A reference leads to the first path where it is looked up and a unit may be. -/
theorem find_eq : c.find d f ref =
    (c.locate d (c.searchPaths f ref)).elim ((c.complaint f ref).elim .builtIn .missing) .unit := by
  unfold find searchPaths complaint
  split
  · cases c.locate d (c.resourceCandidates ref.name) <;> rfl
  · split
    · rename_i unmapped
      rw [isEmpty_iff.mp unmapped]
      rfl
    · cases c.locate d (c.candidates (c.qualifiedName f ref.name))
      · dsimp only
        split <;> rfl
      · rfl

theorem find_eq_unit_iff : c.find d f ref = .unit path ↔ c.locate d (c.searchPaths f ref) = some path := by
  rw [find_eq]
  cases c.locate d (c.searchPaths f ref) <;> cases c.complaint f ref <;> simp

theorem describe_of_locate (found : c.locate d paths = some path) : (c.describe path).isSome := by
  induction paths with
  | nil => cases found
  | cons first rest ih =>
    unfold locate at found
    split at found
    · rename_i here
      rw [← Option.some.inj found]
      exact (Bool.and_eq_true_iff.mp here).2
    · exact ih found

theorem describe_of_find (found : c.find d f ref = .unit path) : (c.describe path).isSome :=
  describe_of_locate (find_eq_unit_iff.mp found)

theorem describe_of_mem_linksFrom (refs : List Reference) :
    ∀ {l : Links}, (∀ path ∈ l.targets, (c.describe path).isSome) →
      ∀ path ∈ (c.linksFrom d self f l refs).targets, (c.describe path).isSome := by
  induction refs with
  | nil => exact fun known => known
  | cons ref refs ih =>
    intro l known
    refine ih fun path mem => ?_
    dsimp only at mem
    cases found : c.find d f ref with
    | missing message | builtIn =>
      rw [found] at mem
      exact known path mem
    | unit target =>
      rw [found, Links.add] at mem
      split at mem
      · exact known path mem
      · rcases mem_append.mp mem with old | new
        · exact known path old
        · rw [mem_singleton.mp new]
          exact describe_of_find found

/-- References that lead to the same units make the same links. -/
theorem linksFrom_congr {new : ProjectConfig} {later : Disk}
    (same : ∀ ref ∈ refs, new.find later f ref = c.find d f ref) :
    ∀ l : Links, new.linksFrom later self f l refs = c.linksFrom d self f l refs := by
  induction refs with
  | nil => exact fun _ => rfl
  | cons ref refs ih =>
    intro l
    obtain ⟨first, rest⟩ := forall_mem_cons.mp same
    simp only [linksFrom, foldl_cons, first]
    exact ih rest _

theorem subset_add (l : Links) (self : Text) (line : Nat) (finding : Finding) :
    l.targets ⊆ (l.add self line finding).targets ∧ l.diagnostics ⊆ (l.add self line finding).diagnostics := by
  cases finding with
  | unit target =>
    simp only [Links.add]
    split
    · exact ⟨refl _, refl _⟩
    · exact ⟨subset_append_left _ _, refl _⟩
  | missing message => exact ⟨refl _, subset_append_left _ _⟩
  | builtIn => exact ⟨refl _, refl _⟩

theorem subset_linksFrom (refs : List Reference) : ∀ l : Links, l.targets ⊆ (c.linksFrom d self f l refs).targets ∧
      l.diagnostics ⊆ (c.linksFrom d self f l refs).diagnostics := by
  induction refs with
  | nil => exact fun l => ⟨refl _, refl _⟩
  | cons ref refs ih =>
    intro l
    obtain ⟨targets, diagnostics⟩ := subset_add l self ref.line (c.find d f ref)
    obtain ⟨moreTargets, moreDiagnostics⟩ := ih (l.add self ref.line (c.find d f ref))
    exact ⟨Subset.trans targets moreTargets, Subset.trans diagnostics moreDiagnostics⟩

/-- What is found for a reference is added to some of the links, and they stay among all of them. -/
theorem exists_add_of_mem (c : ProjectConfig) (d : Disk) (self : Text) (f : SourceFile) (mem : ref ∈ refs)
    (l : Links) :
    ∃ before : Links, (before.add self ref.line (c.find d f ref)).targets ⊆ (c.linksFrom d self f l refs).targets ∧
      (before.add self ref.line (c.find d f ref)).diagnostics ⊆
        (c.linksFrom d self f l refs).diagnostics := by
  induction refs generalizing l with
  | nil => cases mem
  | cons first rest ih =>
    rcases mem_cons.mp mem with rfl | inside
    · exact ⟨l, subset_linksFrom rest _⟩
    · exact ih inside (l.add self first.line (c.find d f first))

theorem mem_targets_of_find (mem : ref ∈ f.references)
    (found : c.find d f ref = .unit path) (other : path ≠ self) : path ∈ (c.links d self f).targets := by
  obtain ⟨before, inside, _⟩ := exists_add_of_mem c d self f mem {}
  refine inside ?_
  rw [found, Links.add]
  split
  · rename_i known
    rw [beq_eq_false_iff_ne.mpr other, Bool.false_or, contains_iff_mem] at known
    exact known
  · simp

theorem mem_diagnostics_of_find {message : Text} (mem : ref ∈ f.references)
    (missing : c.find d f ref = .missing message) :
    .warning .unresolved self ref.line message ∈ (c.links d self f).diagnostics := by
  obtain ⟨before, _, inside⟩ := exists_add_of_mem c d self f mem {}
  refine inside ?_
  rw [missing, Links.add]
  simp

end ProjectConfig

namespace Workspace

variable {w : Workspace} {d : Disk} {p : ProjectId}

/-- A later workspace with further units of a project, at places that are on the disk. -/
inductive Opens (d : Disk) (p : ProjectId) (w : Workspace) : Workspace → Prop where
  | refl : Opens d p w w
  | request {later : Workspace} {path : Text} : Opens d p w later → (d.stat path).isOk →
      (∃ c, w.project? p = some c ∧ c.Searches path) →
      Opens d p w (later.request p (d.absolute path)).2

namespace Opens

variable {u : CompilationUnit} (more : w.Opens d p later)

include more

@[elab_as_elim]
theorem preserves {motive : Workspace → Prop} (start : motive w)
    (request : ∀ x q, motive x → motive (x.request p (d.absolute q)).2) : motive later := by
  induction more with
  | refl => exact start
  | request _ _ _ ih => exact request _ _ ih

theorem grows : w.Grows later :=
  more.preserves (.refl w) fun x _ grown => grown.trans (.request x p _)

theorem trans {last : Workspace} (further : later.Opens d p last) : w.Opens d p last := by
  induction further with
  | refl => exact more
  | request _ there place ih =>
    rw [more.grows.project?] at place
    exact .request ih there place

theorem wellFormed (ok : w.WellFormed) : later.WellFormed :=
  more.preserves ok fun _ _ ok => ok.request p _

theorem described (known : w.Described) : later.Described :=
  more.preserves known fun _ _ known => known.request p _

theorem unit? (found : w.unit? id = some u) : later.unit? id = some u :=
  more.preserves found fun _ _ => unit?_request

theorem unit?_eq_none (absent : later.unit? id = none) : w.unit? id = none := by
  refine Option.eq_none_iff_forall_ne_some.mpr fun u found => ?_
  rw [more.unit? found] at absent
  cases absent

theorem of_lookup {q : ProjectId} {place : Text} (found : later.lookup q place = some id) :
    w.lookup q place = some id ∨ w.unit? id = none := by
  induction more with
  | refl => exact .inl found
  | request before _ _ ih =>
    exact (of_lookup_request found).elim ih fun ⟨_, _, absent⟩ => .inr (before.unit?_eq_none absent)

end Opens

theorem describe_eq (config : w.project? p = some c) (path : Text) : w.describe p path = c.describe path := by
  simp [describe, config]

/-- The outcome of a search: nothing, or the unit that is registered at the path where it ended. -/
def Leads (p : ProjectId) (place : Option Text) (outcome : Option UnitId × Workspace) : Prop :=
  (place = none ∧ outcome.1 = none) ∨
  ∃ path id, place = some path ∧ outcome.1 = some id ∧ outcome.2.lookup p path = some id

/-- The first path is passed over if there is nothing or may be no unit. -/
theorem firstUnit_cons (w : Workspace) (d : Disk) (p : ProjectId) (path : Text) (paths : List Text) :
    w.firstUnit d p (path :: paths) =
      if (d.stat path).isOk then
        if (w.request p (d.absolute path)).1.isSome then w.request p (d.absolute path)
        else (w.request p (d.absolute path)).2.firstUnit d p paths
      else w.firstUnit d p paths := by
  cases there : d.stat path with
  | error e =>
    simp only [firstUnit, there]
    rfl
  | ok entry =>
    simp only [firstUnit, there]
    generalize w.request p (d.absolute path) = outcome
    obtain ⟨_ | id, later⟩ := outcome <;> rfl

theorem firstUnit_opens (config : w.project? p = some c) (d : Disk)
    (searched : ∀ path ∈ paths, c.Searches path) : w.Opens d p (w.firstUnit d p paths).2 := by
  induction paths generalizing w with
  | nil => exact .refl
  | cons path paths ih =>
    obtain ⟨search, rest⟩ := forall_mem_cons.mp searched
    rw [firstUnit_cons]
    split
    · rename_i there
      have first : w.Opens d p (w.request p (d.absolute path)).2 :=
        .request .refl there ⟨c, config, search⟩
      split
      · exact first
      · exact first.trans (ih ((first.grows.project? p).trans config) rest)
    · exact ih config rest

theorem firstUnit_leads (known : w.Described) (config : w.project? p = some c) (d : Disk) (paths : List Text) :
    Leads p (c.locate d paths) (w.firstUnit d p paths) := by
  induction paths generalizing w with
  | nil => exact .inl ⟨rfl, rfl⟩
  | cons path paths ih =>
    rw [firstUnit_cons, locate]
    by_cases there : (d.stat path).isOk
    · rw [if_pos there]
      have outcome := request_fst known p (d.absolute path)
      rw [describe_eq config] at outcome
      rcases outcome with ⟨described, id, unit, place⟩ | ⟨hidden, absent⟩
      · rw [if_pos (by rw [there, described]; rfl), if_pos (by rw [unit]; rfl)]
        exact .inr ⟨_, id, rfl, unit, place⟩
      · rw [if_neg (by simp [hidden]), if_neg (by simp [absent])]
        exact ih (known.request p _) (((Grows.request w p _).project? p).trans config)
    · rw [if_neg there, if_neg (by simp [there])]
      exact ih known config

theorem resolve_eq (config : w.project? p = some c) (d : Disk) (qname : Text) :
    w.resolve d p qname = w.firstUnit d p (c.candidates qname) := by
  simp [resolve, config]

theorem resolveResource_eq (config : w.project? p = some c) (d : Disk) (relative : Text) :
    w.resolveResource d p relative = w.firstUnit d p (c.resourceCandidates relative) := by
  simp [resolveResource, config]

/-- What a reference adds, depending on what it turned out to be. -/
def Resolution.Takes (p : ProjectId) (self : UnitId) (file : Text) (line : Nat) (r later : Resolution) : Finding → Prop
  | .unit path => ∃ id, later.workspace.lookup p path = some id ∧
      later.dependencies = (r.add self id).dependencies ∧ later.diagnostics = r.diagnostics
  | .missing message => later.dependencies = r.dependencies ∧
      later.diagnostics = r.diagnostics ++ [.warning .unresolved file line message]
  | .builtIn => later.dependencies = r.dependencies ∧ later.diagnostics = r.diagnostics

theorem Resolution.diagnostics_add (r : Resolution) (self id : UnitId) :
    (r.add self id).diagnostics = r.diagnostics := by
  unfold add
  split <;> rfl

theorem Resolution.workspace_add (r : Resolution) (self id : UnitId) : (r.add self id).workspace = r.workspace := by
  unfold add
  split <;> rfl

/-- What a search for a reference adds to a resolution. -/
def Resolution.settle (r : Resolution) (self : UnitId) (file : Text) (line : Nat) (complaint : Option Text) :
    Option UnitId × Workspace → Resolution
  | (some id, workspace) => { r with workspace }.add self id
  | (none, workspace) => complaint.elim { r with workspace } ({ r with workspace }.warn file line)

theorem Resolution.workspace_settle (r : Resolution) (self : UnitId) (file : Text) (line : Nat)
    (complaint : Option Text) (outcome : Option UnitId × Workspace) :
    (r.settle self file line complaint outcome).workspace = outcome.2 := by
  obtain ⟨_ | id, w⟩ := outcome
  · cases complaint <;> rfl
  · exact workspace_add _ self id

theorem Resolution.takes_add {r : Resolution} {self : UnitId} {file : Text} {line : Nat}
    (place : w.lookup p path = some id) :
    r.Takes p self file line ({ r with workspace := w }.add self id) (.unit path) := by
  refine ⟨id, ?_, ?_, diagnostics_add _ self id⟩
  · rw [workspace_add]
    exact place
  · simp only [add]
    split <;> rfl

section Reference

variable {u : CompilationUnit} {r : Resolution}

theorem resolveReference_eq (config : r.workspace.project? u.project = some c) (d : Disk) (self : UnitId)
    (f : SourceFile) (ref : Reference) : resolveReference d self u f r ref =
      r.settle self u.path ref.line (c.complaint f ref) (r.workspace.firstUnit d u.project (c.searchPaths f ref)) := by
  unfold resolveReference searchPaths complaint
  split
  · rw [resolveResource_eq config]
    rfl
  · simp only [config, Option.map_some, Option.getD_some]
    split
    · rename_i unmapped
      rw [isEmpty_iff.mp unmapped]
      rfl
    · rw [resolve_eq config]
      obtain ⟨_ | id, w⟩ := r.workspace.firstUnit d u.project (c.candidates (c.qualifiedName f ref.name))
      · dsimp only
        split <;> rfl
      · rfl

/-- Also without a configuration, a resolution is settled by some search. -/
theorem exists_settle (d : Disk) (self : UnitId) (u : CompilationUnit) (f : SourceFile) (r : Resolution)
    (ref : Reference) : ∃ paths complaint, resolveReference d self u f r ref =
      r.settle self u.path ref.line complaint (r.workspace.firstUnit d u.project paths) := by
  cases config : r.workspace.project? u.project with
  | some c => exact ⟨_, _, resolveReference_eq config d self f ref⟩
  | none =>
    unfold resolveReference
    simp only [resolveResource, config, Option.map_none, Option.getD_none]
    split
    · exact ⟨[], some _, rfl⟩
    · exact ⟨[], some _, rfl⟩

theorem resolveReference_opens (config : r.workspace.project? u.project = some c) (d : Disk)
    (self : UnitId) (f : SourceFile) (ref : Reference) :
    r.workspace.Opens d u.project (resolveReference d self u f r ref).workspace := by
  rw [resolveReference_eq config, Resolution.workspace_settle]
  exact firstUnit_opens config d fun _ => searches_of_mem_searchPaths

theorem resolveReference_takes (known : r.workspace.Described)
    (config : r.workspace.project? u.project = some c) (d : Disk) (self : UnitId) (f : SourceFile)
    (ref : Reference) :
    r.Takes u.project self u.path ref.line (resolveReference d self u f r ref) (c.find d f ref) := by
  have leads := firstUnit_leads known config d (c.searchPaths f ref)
  rw [resolveReference_eq config, find_eq]
  generalize r.workspace.firstUnit d u.project (c.searchPaths f ref) = outcome at leads
  obtain ⟨found, w⟩ := outcome
  rcases leads with ⟨nowhere, rfl⟩ | ⟨path, id, somewhere, rfl, place⟩
  · rw [nowhere]
    cases c.complaint f ref <;> exact ⟨rfl, rfl⟩
  · rw [somewhere]
    exact Resolution.takes_add place

end Reference

/-- Units keep their numbers in a workspace that has them at the same paths. -/
theorem map_lookup_eq (kept : ∀ path ∈ paths, ∀ id, w.lookup p path = some id → later.lookup p path = some id)
    (numbers : ds.map some = paths.map (w.lookup p)) : ds.map some = paths.map (later.lookup p) := by
  rw [numbers]
  refine map_congr_left fun path mem => ?_
  have known : w.lookup p path ∈ ds.map some := by
    rw [numbers]
    exact mem_map_of_mem mem
  obtain ⟨id, _, found⟩ := mem_map.mp known
  rw [← found, kept path mem id found.symm]

theorem Grows.map_lookup (grown : w.Grows later) (numbers : ds.map some = paths.map (w.lookup p)) :
    ds.map some = paths.map (later.lookup p) :=
  map_lookup_eq (fun _ _ _ found => grown.registry found) numbers

/-- The paths of units are where they are registered. -/
theorem WellFormed.map_unitPath (ok : w.WellFormed) (numbers : ds.map some = paths.map (w.lookup p)) :
    ds.map w.unitPath = paths := by
  have place : ∀ path ∈ paths, ((w.lookup p path).map w.unitPath).getD [] = path := by
    intro path mem
    have entry := mem_map_of_mem (f := w.lookup p) mem
    rw [← numbers] at entry
    obtain ⟨id, _, here⟩ := mem_map.mp entry
    obtain ⟨u, unit, _, same⟩ := ok.registered here.symm
    rw [← here]
    simp [unitPath, unit, same]
  have mapped := congrArg (map fun o => (o.map w.unitPath).getD []) numbers
  simp only [map_map] at mapped
  exact mapped.trans ((map_congr_left place).trans (map_id _))

namespace Resolution

variable {r later : Resolution} {self : UnitId} {file : Text} {line : Nat} {finding : Finding} {l : Links}

/-- What holds of the references resolved so far. -/
structure Sound (p : ProjectId) (r : Resolution) : Prop where
  wellFormed : r.workspace.WellFormed
  described : r.workspace.Described
  unique : r.dependencies.Nodup
  kinds : ∀ x ∈ r.diagnostics, x.kind = .unresolved
  targets : ∀ id ∈ r.dependencies, ∃ path, r.workspace.lookup p path = some id

theorem mem_add {x : UnitId} (mem : x ∈ (r.add self id).dependencies) : x ∈ r.dependencies ∨ x = id := by
  unfold add at mem
  split at mem
  · exact .inl mem
  · simpa using mem

theorem nodup_add (unique : r.dependencies.Nodup) (self id : UnitId) : (r.add self id).dependencies.Nodup := by
  unfold add
  split
  · exact unique
  · rename_i new
    simp only [Bool.or_eq_true, contains_iff_mem, not_or] at new
    exact nodup_append_comm.mp (nodup_cons.mpr ⟨new.2, unique⟩)

theorem Sound.takes (sound : r.Sound p) (more : r.workspace.Opens d p later.workspace)
    (takes : r.Takes p self file line later finding) : later.Sound p := by
  have old : ∀ id ∈ r.dependencies, ∃ path, later.workspace.lookup p path = some id := fun id mem =>
    (sound.targets id mem).imp fun _ => more.grows.registry
  refine ⟨more.wellFormed sound.wellFormed, more.described sound.described, ?_, ?_, ?_⟩
  · cases finding with
    | unit path =>
      obtain ⟨id, _, dependencies, _⟩ := takes
      exact dependencies ▸ nodup_add sound.unique self id
    | missing message | builtIn => exact takes.1 ▸ sound.unique
  · cases finding with
    | unit path =>
      obtain ⟨id, _, _, diagnostics⟩ := takes
      exact diagnostics ▸ sound.kinds
    | missing message =>
      rw [takes.2]
      intro x mem
      rcases mem_append.mp mem with earlier | last
      · exact sound.kinds x earlier
      · rw [mem_singleton.mp last]
        rfl
    | builtIn => exact takes.2 ▸ sound.kinds
  · cases finding with
    | unit path =>
      obtain ⟨id, place, dependencies, _⟩ := takes
      rw [dependencies]
      intro x mem
      rcases mem_add mem with earlier | rfl
      · exact old x earlier
      · exact ⟨path, place⟩
    | missing message | builtIn => exact takes.1 ▸ old

/-- The units that were found are those at the paths of the links. -/
structure Matches (p : ProjectId) (r : Resolution) (l : Links) : Prop where
  targets : r.dependencies.map some = l.targets.map (r.workspace.lookup p)
  diagnostics : r.diagnostics = l.diagnostics

/-- A unit is among the dependencies if and only if its path is among the targets. -/
theorem Matches.mem_iff (same : r.Matches p l) (grown : r.workspace.Grows later.workspace)
    (late : later.workspace.WellFormed) (place : later.workspace.lookup p path = some id) :
    id ∈ r.dependencies ↔ path ∈ l.targets := by
  have numbers := same.targets
  constructor
  · intro mem
    have found : some id ∈ l.targets.map (r.workspace.lookup p) := by
      rw [← numbers]
      exact mem_map_of_mem mem
    obtain ⟨other, target, number⟩ := mem_map.mp found
    rwa [← (late.place (grown.registry number) place).2]
  · intro target
    have found : r.workspace.lookup p path ∈ r.dependencies.map some := by
      rw [numbers]
      exact mem_map_of_mem target
    obtain ⟨other, mem, number⟩ := mem_map.mp found
    rw [grown.registry number.symm] at place
    cases place
    exact mem

theorem Matches.takes (same : r.Matches p l) (ok : r.workspace.WellFormed)
    (here : r.workspace.lookup p file = some self) (more : r.workspace.Opens d p later.workspace)
    (takes : r.Takes p self file line later finding) : later.Matches p (l.add file line finding) := by
  have late := more.wellFormed ok
  have grown := more.grows
  have old := grown.map_lookup same.targets
  cases finding with
  | unit path =>
    obtain ⟨id, place, dependencies, diagnostics⟩ := takes
    have own : id = self ↔ path = file := by
      constructor
      · rintro rfl
        exact (late.place place (grown.registry here)).2
      · rintro rfl
        rw [grown.registry here] at place
        injection place with place
        exact place.symm
    have member := same.mem_iff grown late place
    have skipped : (id == self || r.dependencies.contains id) = (path == file || l.targets.contains path) := by
      rw [Bool.eq_iff_iff]
      simp [own, member]
    refine ⟨?_, ?_⟩
    · rw [dependencies, add, Links.add, skipped]
      split
      · exact old
      · simp [old, place]
    · rw [diagnostics, same.diagnostics, Links.add]
      split <;> rfl
  | missing message =>
    exact ⟨by rw [takes.1]; exact old, by rw [takes.2, same.diagnostics]; rfl⟩
  | builtIn => exact ⟨by rw [takes.1]; exact old, takes.2.trans same.diagnostics⟩

end Resolution

def resolveAll (d : Disk) (id : UnitId) (u : CompilationUnit) (f : SourceFile) (r : Resolution)
    (refs : List Reference) : Resolution :=
  refs.foldl (resolveReference d id u f) r

def resolution (w : Workspace) (d : Disk) (id : UnitId) (u : CompilationUnit) (f : SourceFile) : Resolution :=
  resolveAll d id u f { workspace := w } f.references

section Fold

variable {u : CompilationUnit}

section

variable (d : Disk) (id : UnitId) (f : SourceFile) (refs : List Reference)

theorem resolveAll_sound :
    ∀ {r : Resolution}, r.Sound u.project → r.workspace.project? u.project = some c →
      (resolveAll d id u f r refs).Sound u.project ∧
        r.workspace.Opens d u.project (resolveAll d id u f r refs).workspace := by
  induction refs with
  | nil => exact fun sound _ => ⟨sound, .refl⟩
  | cons ref refs ih =>
    intro r sound config
    have more := resolveReference_opens config d id f ref
    have next := sound.takes more (resolveReference_takes sound.described config d id f ref)
    obtain ⟨kept, later⟩ := ih next ((more.grows.project? _).trans config)
    exact ⟨kept, more.trans later⟩

theorem resolveAll_matches :
    ∀ {r : Resolution} {l : Links}, r.Sound u.project → r.workspace.project? u.project = some c →
      r.workspace.lookup u.project u.path = some id → r.Matches u.project l →
      (resolveAll d id u f r refs).Matches u.project (c.linksFrom d u.path f l refs) := by
  induction refs with
  | nil => exact fun _ _ _ same => same
  | cons ref refs ih =>
    intro r l sound config here same
    have more := resolveReference_opens config d id f ref
    have takes := resolveReference_takes sound.described config d id f ref
    exact ih (sound.takes more takes) ((more.grows.project? _).trans config)
      (more.grows.registry here) (same.takes sound.wellFormed here more takes)

end

variable (ok : w.WellFormed) (known : w.Described) (config : w.project? u.project = some c) (d : Disk)

include ok known config

theorem resolution_sound (id : UnitId) (f : SourceFile) :
    (w.resolution d id u f).Sound u.project ∧ w.Opens d u.project (w.resolution d id u f).workspace :=
  resolveAll_sound d id f f.references ⟨ok, known, nodup_nil, by simp, by simp⟩ config

theorem resolution_matches (here : w.lookup u.project u.path = some id) (f : SourceFile) :
    (w.resolution d id u f).Matches u.project (c.links d u.path f) :=
  resolveAll_matches d id f f.references ⟨ok, known, nodup_nil, by simp, by simp⟩ config here
    ⟨rfl, rfl⟩

end Fold

end Workspace

end ScriptBuild
