import Mathlib.Data.List.Perm.Subperm
import Mathlib.Logic.Relation
import ScriptBuild.Proofs.Resolution

/-! The dependencies of units. -/

namespace ScriptBuild

variable {canceled : Bool} {r : SyntaxResult} {v : CompilationUnit} {later : Workspace}

namespace Workspace

variable {w : Workspace} {d : Disk} {id : UnitId} {u : CompilationUnit}

/-- The references of a tree that was asked for, resolved. -/
def resolvedTree (w : Workspace) (d : Disk) (id : UnitId) (u : CompilationUnit) (r : SyntaxResult) : Resolution :=
  (w.startParse d id).resolution d id u r.file

def Resolution.store (x : Resolution) (id : UnitId) (version : Nat) : Workspace :=
  x.workspace.setDependencies id version x.dependencies x.diagnostics

/-- How a request for dependencies ends: they were known, or there is no tree, or the references of
the tree are resolved. -/
theorem dependencies_cases (found : w.unit? id = some u) (d : Disk) (canceled : Bool) :
    (u.isResolved ∧ w.dependencies d canceled id = (some u.dependencies, w)) ∨
    (¬ u.isResolved ∧ (w.tree d canceled id).1 = none ∧ w.dependencies d canceled id = (none, w.startParse d id)) ∨
    (∃ r, ¬ u.isResolved ∧ (w.tree d canceled id).1 = some r ∧ w.dependencies d canceled id =
      (some (w.resolvedTree d id u r).dependencies, (w.resolvedTree d id u r).store id r.version)) := by
  have second := w.tree_snd d canceled id
  unfold dependencies
  rw [found]
  dsimp only
  by_cases current : u.isResolved
  · exact .inl ⟨current, by rw [if_pos current]⟩
  · rw [if_neg current]
    generalize w.tree d canceled id = outcome at second
    obtain ⟨_ | r, later⟩ := outcome
    · dsimp only at second
      exact .inr (.inl ⟨current, rfl, by rw [second]⟩)
    · subst second
      exact .inr (.inr ⟨r, current, rfl, rfl⟩)

theorem dependencies_of_none (absent : w.unit? id = none) : w.dependencies d canceled id = (some [], w) := by
  simp [dependencies, absent]

/-- The state in which the references of a unit have been resolved and are still to be recorded. -/
structure Resolved (w : Workspace) (d : Disk) (id : UnitId) (u : CompilationUnit) (r : SyntaxResult)
    (v : CompilationUnit) : Prop where
  sound : (w.resolvedTree d id u r).Sound u.project
  opens : (w.startParse d id).Opens d u.project (w.resolvedTree d id u r).workspace
  unit : (w.resolvedTree d id u r).workspace.unit? id = some v
  keeps : u.Keeps v
  pending : ¬ v.isResolved
  tree : v.cell = .finished r
  version : r.version = v.version

theorem resolved_of_tree (ok : w.WellFormed) (known : w.Described) (found : w.unit? id = some u)
    (pending : ¬ u.isResolved) (tree : (w.tree d canceled id).1 = some r) : ∃ v, w.Resolved d id u r v := by
  have first := Grows.startParse w d id
  obtain ⟨c, config⟩ := ok.project found
  obtain ⟨sound, opens⟩ := resolution_sound (ok.startParse d id) (known.startParse d id)
    ((first.project? u.project).trans config) d id r.file
  obtain ⟨v, unit, finished⟩ := tree_eq_some tree
  have start : v = u.parsed d := by
    rw [unit?_startParse, found] at unit
    simpa using unit.symm
  refine ⟨v, sound, opens, opens.unit? unit, start ▸ u.keeps_parsed d, ?_, finished, ?_⟩
  · rw [start, CompilationUnit.isResolved_parsed]
    exact pending
  · exact ((ok.startParse d id).unit unit).version r finished

theorem Resolved.wellFormed (done : w.Resolved d id u r v) :
    ((w.resolvedTree d id u r).store id v.version).WellFormed := by
  refine done.sound.wellFormed.setDependencies done.unit done.tree done.sound.unique
    done.sound.kinds fun t mem => ?_
  obtain ⟨path, place⟩ := done.sound.targets t mem
  obtain ⟨x, target, project, _⟩ := done.sound.wellFormed.registered place
  exact ⟨x, target, project.trans done.keeps.project.symm⟩

theorem Resolved.described (done : w.Resolved d id u r v) : ((w.resolvedTree d id u r).store id v.version).Described :=
  done.sound.described.of_registry (projects_setDependencies _ _ _ _ _) (registry_setDependencies _ _ _ _ _)

section

variable (ok : w.WellFormed) (known : w.Described)

include ok known

/-- A request for dependencies starts a parse, asks for units, and records what it found. -/
theorem dependencies_preserves {motive : Workspace → Prop} (start : motive w) (parse : motive (w.startParse d id))
    (request : ∀ {u later path}, w.unit? id = some u → (d.stat path).isOk →
      (∃ c, w.project? u.project = some c ∧ c.Searches path) → motive later →
      motive (later.request u.project (d.absolute path)).2)
    (record : ∀ {u r v}, w.unit? id = some u → w.Resolved d id u r v → motive (w.resolvedTree d id u r).workspace →
      motive ((w.resolvedTree d id u r).store id v.version))
    (canceled : Bool) : motive (w.dependencies d canceled id).2 := by
  cases found : w.unit? id with
  | none =>
    rw [dependencies_of_none found]
    exact start
  | some u =>
    rcases dependencies_cases found d canceled with ⟨_, same⟩ | ⟨_, _, same⟩ | ⟨r, pending, tree, same⟩
    · rw [same]
      exact start
    · rw [same]
      exact parse
    · obtain ⟨v, done⟩ := resolved_of_tree ok known found pending tree
      rw [same, done.version]
      refine record found done ?_
      have opens := done.opens
      generalize (w.resolvedTree d id u r).workspace = later at opens
      induction opens with
      | refl => exact parse
      | request _ there searched ih => exact request found there (by simpa [project?] using searched) ih

theorem dependencies_grows (d : Disk) (canceled : Bool) (id : UnitId) :
    (w.dependencies d canceled id).2.WellFormed ∧ (w.dependencies d canceled id).2.Described ∧
      w.Grows (w.dependencies d canceled id).2 := by
  refine dependencies_preserves (motive := fun x => x.WellFormed ∧ x.Described ∧ w.Grows x) ok known ⟨ok, known, .refl w⟩
    ⟨ok.startParse d id, known.startParse d id, .startParse w d id⟩ ?_ ?_ canceled
  · exact fun _ _ _ ⟨ok, known, grown⟩ => ⟨ok.request _ _, known.request _ _, grown.trans (.request _ _ _)⟩
  · exact fun _ done ⟨_, _, grown⟩ =>
      ⟨done.wellFormed, done.described, grown.trans (.setDependencies done.unit done.pending _ _)⟩

theorem dependencies_recorded (found : w.unit? id = some u) {ds : List UnitId}
    (answer : (w.dependencies d canceled id).1 = some ds) :
    ∃ v, (w.dependencies d canceled id).2.unit? id = some v ∧ v.isResolved ∧ v.dependencies = ds := by
  rcases dependencies_cases found d canceled with
    ⟨current, same⟩ | ⟨_, _, same⟩ | ⟨r, pending, tree, same⟩
  · rw [same] at answer ⊢
    exact ⟨u, found, current, Option.some.inj answer⟩
  · rw [same] at answer
    cases answer
  · obtain ⟨v, done⟩ := resolved_of_tree ok known found pending tree
    rw [same] at answer ⊢
    injection answer with answer
    rw [Resolution.store, done.version, unit?_setDependencies done.unit, done.unit]
    simp only [Option.map_some]
    exact ⟨_, rfl, CompilationUnit.isResolved_resolvedTo _ _ _, answer⟩

end

/-- The recorded dependencies of a unit are the units that its references lead to. -/
def Linked (w : Workspace) (d : Disk) (u : CompilationUnit) : Prop :=
  ∀ r c, u.cell = .finished r → w.project? u.project = some c →
    u.dependencies.map some = (c.links d u.path r.file).targets.map (w.lookup u.project) ∧
      u.dependencyDiagnostics = (c.links d u.path r.file).diagnostics

/-- What every unit has recorded for its version is what its references lead to. -/
def AllLinked (w : Workspace) (d : Disk) : Prop :=
  ∀ id u, w.IsRegistered id u → u.isResolved → w.Linked d u

theorem Linked.grows (linked : w.Linked d u) (ok : u.WellFormed) (current : u.isResolved)
    (grown : w.Grows later) (kept : u.Keeps v) : later.Linked d v := by
  intro r c tree config
  obtain ⟨r', finished⟩ := ok.tree current
  have same : r' = r := by
    have still := kept.tree r' finished
    rw [tree] at still
    injection still with same
    exact same.symm
  subst same
  obtain ⟨_, dependencies, diagnostics⟩ := kept.resolved current
  rw [grown.project?, kept.project] at config
  obtain ⟨targets, warnings⟩ := linked r' c finished config
  rw [dependencies, diagnostics, kept.path, kept.project]
  exact ⟨grown.map_lookup targets, warnings⟩

theorem Linked.congr (linked : w.Linked d u) (grown : w.Grows later) : later.Linked d u := by
  intro r c tree config
  obtain ⟨targets, warnings⟩ := linked r c tree ((grown.project? _).symm.trans config)
  exact ⟨grown.map_lookup targets, warnings⟩

/-- Dependencies that are about to be recorded are those that the references lead to. -/
theorem Resolved.linked (done : w.Resolved d id u r v) (ok : w.WellFormed) (known : w.Described)
    (found : w.unit? id = some u) (place : (w.resolvedTree d id u r).workspace.lookup v.project v.path = some id) :
    (w.resolvedTree d id u r).workspace.Linked d
      (v.resolvedTo (w.resolvedTree d id u r).dependencies (w.resolvedTree d id u r).diagnostics) := by
  intro r' c tree config
  change v.cell = .finished r' at tree
  rw [done.tree] at tree
  cases tree
  change _ = List.map _ (c.links d v.path r.file).targets ∧ _ = (c.links d v.path r.file).diagnostics
  change project? _ v.project = some c at config
  rw [done.keeps.project, done.opens.grows.project?] at config
  rw [done.keeps.project, done.keeps.path] at place
  have here : (w.startParse d id).lookup u.project u.path = some id := by
    refine (done.opens.of_lookup place).resolve_right fun absent => ?_
    rw [unit?_startParse, found] at absent
    cases absent
  have same := resolution_matches (ok.startParse d id) (known.startParse d id) config d here r.file
  rw [done.keeps.path]
  exact ⟨by rw [← done.keeps.project] at same; exact same.targets, same.diagnostics⟩

theorem Resolved.allLinked (done : w.Resolved d id u r v) (ok : w.WellFormed) (known : w.Described)
    (found : w.unit? id = some u) (linked : (w.resolvedTree d id u r).workspace.AllLinked d) :
    ((w.resolvedTree d id u r).store id v.version).AllLinked d := by
  have grown := Grows.setDependencies done.unit done.pending (w.resolvedTree d id u r).dependencies
    (w.resolvedTree d id u r).diagnostics
  intro j x ⟨unit, place⟩ current
  rw [Resolution.store, lookup_setDependencies] at place
  rcases of_unit?_setDependencies done.unit unit with ⟨rfl, rfl⟩ | ⟨_, old⟩
  · exact (done.linked ok known found place).congr grown
  · exact (linked j x ⟨old, place⟩ current).grows (done.sound.wellFormed.unit old) current grown (.refl x)

variable (linked : w.AllLinked d) (ok : w.WellFormed)

include linked ok

theorem AllLinked.of_new (grown : w.Grows later)
    (units : ∀ {id u}, later.unit? id = some u → u.isResolved → w.unit? id = some u)
    (places : ∀ {p place id}, later.lookup p place = some id → w.lookup p place = some id ∨ w.unit? id = none) :
    later.AllLinked d := by
  intro id u ⟨found, place⟩ current
  have old := units found current
  have registered : w.lookup u.project u.path = some id := by
    refine (places place).resolve_right fun absent => ?_
    rw [old] at absent
    cases absent
  exact (linked id u ⟨old, registered⟩ current).grows (ok.unit old) current grown (.refl u)

theorem AllLinked.request (p : ProjectId) (path : Text) : (w.request p path).2.AllLinked d := by
  refine linked.of_new ok (.request w p path) (fun found current => ?_)
    fun found => (of_lookup_request found).imp_right (·.2.2)
  rcases of_unit?_request found with old | ⟨_, _, _, _, new⟩
  · exact old
  · subst new
    cases current

theorem AllLinked.startParse (disk : Disk) (id : UnitId) : (w.startParse disk id).AllLinked d := by
  intro j v ⟨found, place⟩ current
  have aged := Ages.startParse w disk id
  obtain ⟨u, old, same⟩ := aged.of_unit? found
  obtain ⟨_, next, kept⟩ := (Grows.startParse w disk id).unit old
  obtain rfl := Option.mem_unique found next
  have still := same.isResolved (ok.unit old).recorded current
  rw [aged.lookup, kept.project, kept.path] at place
  exact (linked j u ⟨old, place⟩ still).grows (ok.unit old) still (.startParse w disk id) kept

end Workspace

open List CompilationUnit

variable {x u : UnitId}

namespace CompilationUnit

variable {u : CompilationUnit}

theorem not_isResolved_invalidated (recorded : ∀ v, u.resolvedVersion = some v → v ≤ u.version) :
    ¬ u.invalidated.isResolved := by
  intro current
  have same : u.resolvedVersion = some (u.version + 1) := by
    simpa [isResolved, invalidated] using current
  have bound := recorded _ same
  omega

theorem WellFormed.invalidated (ok : u.WellFormed) : u.invalidated.WellFormed :=
  ⟨ok.unique, ok.kinds, fun v same => Nat.le_succ_of_le (ok.recorded v same),
    fun current => absurd current (not_isResolved_invalidated ok.recorded), fun r found => by cases found⟩

end CompilationUnit

namespace Workspace

open Relation

variable {w : Workspace} {ids : List UnitId} {id : UnitId}

def Indexes (w : Workspace) (d u : UnitId) : Prop := (d, u) ∈ w.dependents

theorem prefix_addNew (ids : List UnitId) (id : UnitId) : ids <+: addNew ids id := by
  unfold addNew
  split
  · exact prefix_refl ids
  · exact prefix_append ids [id]

theorem mem_addNew : x ∈ addNew ids id ↔ x ∈ ids ∨ x = id := by
  unfold addNew
  split
  · rename_i known
    rw [contains_iff_mem] at known
    exact ⟨.inl, fun mem => mem.elim (fun old => old) (fun same => same ▸ known)⟩
  · simp

theorem nodup_addNew (unique : ids.Nodup) (id : UnitId) : (addNew ids id).Nodup := by
  unfold addNew
  split
  · exact unique
  · rename_i new
    rw [contains_iff_mem] at new
    exact nodup_append_comm.mp (nodup_cons.mpr ⟨new, unique⟩)

theorem prefix_foldl_addNew (us : List UnitId) : ∀ ids : List UnitId, ids <+: us.foldl addNew ids := by
  induction us with
  | nil => exact prefix_refl
  | cons u us ih => exact fun ids => (prefix_addNew ids u).trans (ih (addNew ids u))

theorem mem_foldl_addNew (us : List UnitId) : ∀ {ids : List UnitId}, x ∈ us.foldl addNew ids ↔ x ∈ ids ∨ x ∈ us := by
  induction us with
  | nil => simp
  | cons u us ih =>
    intro ids
    rw [foldl_cons, ih, mem_addNew, mem_cons, or_assoc]

theorem nodup_foldl_addNew (us : List UnitId) : ∀ {ids : List UnitId}, ids.Nodup → (us.foldl addNew ids).Nodup := by
  induction us with
  | nil => exact fun unique => unique
  | cons u us ih => exact fun unique => ih (nodup_addNew unique u)

def directDependents (w : Workspace) (ids : List UnitId) : List UnitId :=
  (w.dependents.filter fun (d, _) => ids.contains d).map (·.2)

theorem widen_eq (w : Workspace) (ids : List UnitId) : w.widen ids = (w.directDependents ids).foldl addNew ids := by
  simp [widen, directDependents, foldl_map]

theorem mem_directDependents : u ∈ w.directDependents ids ↔ ∃ d ∈ ids, w.Indexes d u := by
  simp only [directDependents, mem_map, mem_filter, contains_iff_mem]
  constructor
  · rintro ⟨⟨d, v⟩, ⟨edge, mem⟩, rfl⟩
    exact ⟨d, mem, edge⟩
  · rintro ⟨d, mem, edge⟩
    exact ⟨(d, u), ⟨edge, mem⟩, rfl⟩

theorem mem_widen : u ∈ w.widen ids ↔ u ∈ ids ∨ ∃ d ∈ ids, w.Indexes d u := by
  rw [widen_eq, mem_foldl_addNew, mem_directDependents]

/-- Whether everything that depends on one of some units is among them. -/
def Closed (w : Workspace) (ids : List UnitId) : Prop := ∀ d ∈ ids, ∀ u, w.Indexes d u → u ∈ ids

theorem widen_prefix (w : Workspace) (ids : List UnitId) : ids <+: w.widen ids := by
  rw [widen_eq]
  exact prefix_foldl_addNew _ ids

/-- A round adds a unit unless there is nothing left to add. -/
theorem length_lt_widen (unfinished : ¬ w.Closed ids) : ids.length < (w.widen ids).length := by
  refine Nat.lt_of_le_of_ne (w.widen_prefix ids).length_le fun same => unfinished ?_
  intro d mem u edge
  rw [(w.widen_prefix ids).eq_of_length same]
  exact mem_widen.mpr (.inr ⟨d, mem, edge⟩)

theorem Closed.widen (closed : w.Closed ids) : w.Closed (w.widen ids) := by
  intro d mem u edge
  rcases mem_widen.mp mem with old | ⟨e, first, next⟩
  · exact mem_widen.mpr (.inr ⟨d, old, edge⟩)
  · exact mem_widen.mpr (.inl (closed d (closed e first d next) u edge))

def rounds (w : Workspace) (ids : List UnitId) : Nat → List UnitId
  | 0 => ids
  | n + 1 => w.widen (w.rounds ids n)

theorem foldl_widen (w : Workspace) (ids : List UnitId) (n : Nat) :
    (range n).foldl (fun ids _ => w.widen ids) ids = w.rounds ids n := by
  induction n with
  | zero => rfl
  | succ n ih => rw [range_succ, foldl_append, ih]; rfl

theorem closure_eq (w : Workspace) (ids : List UnitId) : w.closure ids = w.rounds (ids.foldl addNew []) w.pool.length :=
  foldl_widen w _ _

theorem nodup_rounds (unique : ids.Nodup) (n : Nat) : (w.rounds ids n).Nodup := by
  induction n with
  | zero => exact unique
  | succ n ih =>
    rw [rounds, widen_eq]
    exact nodup_foldl_addNew _ ih

theorem rounds_sound (n : Nat) (mem : u ∈ w.rounds ids n) : ∃ s ∈ ids, ReflTransGen w.Indexes s u := by
  induction n generalizing u with
  | zero => exact ⟨u, mem, .refl⟩
  | succ n ih =>
    rcases mem_widen.mp mem with old | ⟨d, inside, edge⟩
    · exact ih old
    · obtain ⟨s, start, path⟩ := ih inside
      exact ⟨s, start, path.tail edge⟩

theorem subset_rounds (n : Nat) : ∀ s ∈ ids, s ∈ w.rounds ids n := by
  induction n with
  | zero => exact fun s mem => mem
  | succ n ih => exact fun s mem => mem_widen.mpr (.inl (ih s mem))

/-- After `n` rounds nothing is left to add, or there are `n` more units. -/
theorem closed_or_length_le (w : Workspace) (ids : List UnitId) (n : Nat) :
    w.Closed (w.rounds ids n) ∨ ids.length + n ≤ (w.rounds ids n).length := by
  induction n with
  | zero => exact .inr (Nat.le_refl _)
  | succ n ih =>
    by_cases closed : w.Closed (w.rounds ids n)
    · exact .inl closed.widen
    · have more := length_lt_widen closed
      have before := ih.resolve_left closed
      exact .inr (by rw [rounds]; omega)

section Closure

variable (filed : w.Filed) (inside : ∀ s ∈ ids, s < w.pool.length)

include filed inside

theorem rounds_lt (n : Nat) : ∀ u ∈ w.rounds ids n, u < w.pool.length := by
  induction n with
  | zero => exact inside
  | succ n ih =>
    intro u mem
    rcases mem_widen.mp mem with old | ⟨d, _, edge⟩
    · exact ih u old
    · exact (filed.indexed (d, u) edge).2

theorem closed_rounds (unique : ids.Nodup) : w.Closed (w.rounds ids w.pool.length) := by
  rcases closed_or_length_le w ids w.pool.length with closed | long
  · exact closed
  · have within : ∀ u ∈ w.rounds ids w.pool.length, u ∈ range w.pool.length :=
      fun u mem => mem_range.mpr (rounds_lt filed inside _ u mem)
    have short := ((nodup_rounds unique w.pool.length).subperm within).length_le
    rw [length_range] at short
    have empty : ids = [] := length_eq_zero_iff.mp (by omega)
    intro d mem
    obtain ⟨s, start, _⟩ := rounds_sound w.pool.length mem
    rw [empty] at start
    cases start

/-- The closure holds what depends on one of the units, directly or not. -/
theorem mem_closure_iff : u ∈ w.closure ids ↔ ∃ s ∈ ids, ReflTransGen w.Indexes s u := by
  have same : ∀ s, s ∈ ids.foldl addNew [] ↔ s ∈ ids := fun s => by
    simp [mem_foldl_addNew]
  have valid : ∀ s ∈ ids.foldl addNew [], s < w.pool.length :=
    fun s mem => inside s ((same s).mp mem)
  have closed := closed_rounds filed valid (nodup_foldl_addNew ids nodup_nil)
  rw [closure_eq]
  constructor
  · intro mem
    obtain ⟨s, start, path⟩ := rounds_sound _ mem
    exact ⟨s, (same s).mp start, path⟩
  · rintro ⟨s, start, path⟩
    induction path with
    | refl => exact subset_rounds _ s ((same s).mpr start)
    | tail _ edge ih => exact closed _ ih _ edge

end Closure

theorem nodup_closure (w : Workspace) (ids : List UnitId) : (w.closure ids).Nodup := by
  rw [closure_eq]
  exact nodup_rounds (nodup_foldl_addNew ids nodup_nil) _

theorem subset_closure (w : Workspace) : ∀ s ∈ ids, s ∈ w.closure ids := by
  intro s mem
  rw [closure_eq]
  exact subset_rounds _ s (by simpa [mem_foldl_addNew] using mem)

theorem Filed.lt_length_of_mem_registry (filed : w.Filed) {e : (ProjectId × Text) × UnitId}
    (mem : e ∈ w.registry) : e.2 < w.pool.length := by
  obtain ⟨u, unit, _⟩ := filed.registered (lookup_of_mem filed.keys mem)
  exact lt_length_of_unit? unit

theorem mem_atPath_iff {path : Text} : id ∈ w.atPath path ↔ ∃ p, ((p, path), id) ∈ w.registry := by
  simp only [atPath, mem_map, mem_filter, beq_iff_eq]
  constructor
  · rintro ⟨⟨⟨p, _⟩, _⟩, ⟨mem, rfl⟩, rfl⟩
    exact ⟨p, mem⟩
  · rintro ⟨p, mem⟩
    exact ⟨((p, path), id), ⟨mem, rfl⟩, rfl⟩

theorem Filed.lt_length_of_mem_atPath (filed : w.Filed) {path : Text} : ∀ s ∈ w.atPath path, s < w.pool.length := by
  intro s mem
  obtain ⟨p, inside⟩ := mem_atPath_iff.mp mem
  exact filed.lt_length_of_mem_registry inside

theorem Filed.lt_length_of_mem_unresolved (filed : w.Filed) {p : ProjectId} :
    ∀ s ∈ w.unresolved p, s < w.pool.length := by
  intro s mem
  obtain ⟨e, inside, rfl⟩ := mem_map.mp (mem_filter.mp mem).1
  exact filed.lt_length_of_mem_registry (mem_filter.mp inside).1

section Drop

theorem unit?_invalidateAll (unique : ids.Nodup) (w : Workspace) (j : UnitId) :
    (w.invalidateAll ids).unit? j = (w.unit? j).map fun u => if j ∈ ids then u.invalidated else u := by
  induction ids generalizing w with
  | nil => simp [invalidateAll]
  | cons id ids ih =>
    obtain ⟨absent, rest⟩ := nodup_cons.mp unique
    change ((w.update id invalidated).invalidateAll ids).unit? j = _
    rw [ih rest, unit?_update, Option.map_map]
    congr 1
    funext u
    by_cases here : id = j
    · subst here
      simp [absent]
    · simp [here, Ne.symm here]

section

variable (w : Workspace) (ids : List UnitId)

theorem invalidateAll_eq : w.invalidateAll ids = { w with pool := (w.invalidateAll ids).pool } := by
  induction ids generalizing w with
  | nil => rfl
  | cons id ids ih => exact ih (w.update id invalidated)

@[simp] theorem registry_invalidateAll : (w.invalidateAll ids).registry = w.registry := by rw [invalidateAll_eq]

@[simp] theorem projects_invalidateAll : (w.invalidateAll ids).projects = w.projects := by rw [invalidateAll_eq]

@[simp] theorem bodies_invalidateAll : (w.invalidateAll ids).bodies = w.bodies := by rw [invalidateAll_eq]

@[simp] theorem lookup_invalidateAll : (w.invalidateAll ids).lookup = w.lookup := by
  funext p path
  simp [lookup, registry_invalidateAll]

end

theorem WellFormed.invalidateAll (ok : w.WellFormed) (ids : List UnitId) : (w.invalidateAll ids).WellFormed := by
  induction ids generalizing w with
  | nil => exact ok
  | cons id ids ih =>
    exact ih (ok.update ages_invalidated (fun _ ok => ok.invalidated) id)

theorem Described.invalidateAll (known : w.Described) (ids : List UnitId) : (w.invalidateAll ids).Described :=
  known.of_registry (by simp) (by simp)

/-- A unit that is current after an invalidation was not reached by it. -/
theorem of_isResolved_invalidateAll (filed : w.Filed) (unique : ids.Nodup) {u : CompilationUnit}
    (found : (w.invalidateAll ids).unit? id = some u) (current : u.isResolved) :
    id ∉ ids ∧ w.unit? id = some u := by
  rw [unit?_invalidateAll unique] at found
  obtain ⟨v, old, new⟩ := Option.map_eq_some_iff.mp found
  split at new
  · subst new
    exact absurd current (not_isResolved_invalidated (filed.recorded old))
  · rename_i outside
    subst new
    exact ⟨outside, old⟩

theorem unit?_invalidateAll_of_not_mem (unique : ids.Nodup) (outside : id ∉ ids) (w : Workspace) :
    (w.invalidateAll ids).unit? id = w.unit? id := by
  rw [unit?_invalidateAll unique]
  simp [outside]

theorem AllLinked.invalidateAll {d : Disk} (linked : w.AllLinked d) (ok : w.WellFormed)
    (unique : ids.Nodup) : (w.invalidateAll ids).AllLinked d := by
  intro id u ⟨found, place⟩ current r c tree config
  obtain ⟨_, old⟩ := of_isResolved_invalidateAll ok.filed unique found current
  rw [lookup_invalidateAll] at place ⊢
  simp only [project?, projects_invalidateAll] at config
  exact linked id u ⟨old, place⟩ current r c tree config

end Drop

section Refresh

def refreshed (w : Workspace) (d : Disk) (path : Text) : List UnitId :=
  let content := (d.read path).toOption
  if (w.atPath path).any fun id =>
      (w.unit? id).any fun u => u.fingerprint != (content.map sha256).getD [] then
    w.closure (w.atPath path)
  else if (w.atPath path).isEmpty && content.isSome then
    w.closure ((w.owners.filter fun p => (w.describe p path).isSome).flatMap w.unresolved)
  else []

theorem nodup_refreshed (w : Workspace) (d : Disk) (path : Text) : (w.refreshed d path).Nodup := by
  unfold refreshed
  dsimp only
  split
  · exact nodup_closure w _
  · split
    · exact nodup_closure w _
    · exact nodup_nil

theorem refresh_eq (w : Workspace) (d : Disk) (path : Text) :
    w.refresh d path = (w.sortByPath (w.refreshed d path), w.invalidateAll (w.refreshed d path)) := by
  unfold refresh refreshed
  dsimp only
  split
  · rfl
  · split
    · rfl
    · simp [sortByPath, invalidateAll]

end Refresh

end Workspace

end ScriptBuild
