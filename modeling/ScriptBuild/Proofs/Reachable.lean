import ScriptBuild.Proofs.Dependencies
import ScriptBuild.Proofs.Places
import ScriptBuild.Proofs.TraversalState

/-! Everything that some units reach. -/

namespace ScriptBuild

open List Option Diagnostic

open LinkOrder Relation

variable {n : Nat} {later : Workspace} {ds : List UnitId}

namespace Workspace

variable {w : Workspace} {d : Disk} {p : ProjectId} {id : UnitId} {u : CompilationUnit}

def Ready (w : Workspace) : Prop := ∀ id u, w.unit? id = some u → u.cell ≠ .started

/-- The units from number `n` on belong to a project and are at places of their own on the disk. -/
def Fits (d : Disk) (p : ProjectId) (n : Nat) (w : Workspace) : Prop :=
  ∀ id u, w.unit? id = some u → n ≤ id → u.project = p ∧ u.path ∈ d.entries.map (·.1) ∧ w.lookup p u.path = some id

theorem Fits.length_le (fits : w.Fits d p n) : w.pool.length ≤ n + d.entries.length := by
  let new := (range (w.pool.length - n)).map (n + ·)
  have unit : ∀ id ∈ new, ∃ u, w.unit? id = some u ∧ n ≤ id := by
    intro id mem
    obtain ⟨i, inside, rfl⟩ := mem_map.mp mem
    have bound := mem_range.mp inside
    exact ⟨w.pool[n + i], getElem?_eq_getElem (by omega), by omega⟩
  have paths : ∀ path ∈ new.map w.unitPath, path ∈ d.entries.map (·.1) := by
    intro path mem
    obtain ⟨id, inside, rfl⟩ := mem_map.mp mem
    obtain ⟨u, found, late⟩ := unit id inside
    simp only [unitPath, found]
    exact (fits id u found late).2.1
  have distinct : (new.map w.unitPath).Nodup := by
    refine Nodup.map_on ?_ (nodup_range.map fun a b same => Nat.add_left_cancel same)
    intro a inA b inB same
    obtain ⟨u, foundA, lateA⟩ := unit a inA
    obtain ⟨v, foundB, lateB⟩ := unit b inB
    simp only [unitPath, foundA, foundB, map_some, getD_some] at same
    have placeA := (fits a u foundA lateA).2.2
    have placeB := (fits b v foundB lateB).2.2
    rw [same, placeB] at placeA
    exact (some.inj placeA).symm
  have count := (distinct.subperm paths).length_le
  simp only [new, length_map, length_range] at count
  omega

structure HasTree (w : Workspace) (id : UnitId) (u : CompilationUnit) (tree : SyntaxResult) : Prop where
  found : w.unit? id = some u
  finished : u.cell = .finished tree

theorem Ready.exists_tree (ready : w.Ready) (free : ∀ path, d.isHeld path = false) (found : w.unit? id = some u) :
    ∃ r, w.tree d false id = (some r, w.startParse d id) ∧ (w.startParse d id).HasTree id (u.parsed d) r := by
  have parsed : ∃ r, (u.parsed d).cell = .finished r := by
    unfold CompilationUnit.parsed
    cases cell : u.cell with
    | idle => exact ⟨_, by simp [free]; rfl⟩
    | started => exact absurd cell (ready id u found)
    | finished r => exact ⟨r, cell⟩
  obtain ⟨r, finished⟩ := parsed
  have unit : (w.startParse d id).unit? id = some (u.parsed d) := by
    rw [unit?_startParse, found]
    simp
  exact ⟨r, Prod.ext (tree_of_finished unit finished) (w.tree_snd d false id), unit, finished⟩

theorem Ready.startParse (ready : w.Ready) (free : ∀ path, d.isHeld path = false) (id : UnitId) :
    (w.startParse d id).Ready := by
  intro j v found started
  rw [unit?_startParse] at found
  obtain ⟨u, old, new⟩ := map_eq_some_iff.mp found
  split at new
  · subst new
    unfold CompilationUnit.parsed at started
    split at started
    · simp [free] at started
    all_goals exact ready j u old started
  · exact ready j u old (new ▸ started)

theorem Ready.request (ready : w.Ready) (p : ProjectId) (path : Text) : (w.request p path).2.Ready := by
  intro j v found started
  rcases of_unit?_request found with old | ⟨_, _, _, _, new⟩
  · exact ready j v old started
  · rw [new] at started
    cases started

theorem Ready.setDependencies (ready : w.Ready) (found : w.unit? id = some u) (ds : List UnitId)
    (xs : List Diagnostic) : (w.setDependencies id u.version ds xs).Ready := by
  intro j v unit started
  rw [unit?_setDependencies found] at unit
  obtain ⟨x, old, new⟩ := map_eq_some_iff.mp unit
  refine ready j x old ?_
  split at new <;> subst new <;> exact started

theorem Fits.stays (fits : w.Fits d p n) (stays : w.Stays later) : later.Fits d p n := by
  intro j v found late
  obtain ⟨u, old, project, path, _⟩ := stays.unit found
  rw [stays.lookup, ← project, ← path]
  exact fits j u old late

theorem Fits.request {path : Text} {c : ProjectConfig} (fits : w.Fits d p n) (rooted : c.Rooted)
    (searched : c.Searches path) (there : (d.stat path).isOk) : (w.request p (d.absolute path)).2.Fits d p n := by
  intro j v found late
  rcases of_unit?_request found with old | ⟨_, place, spec, _, rfl⟩
  · obtain ⟨project, path, place⟩ := fits j v old late
    exact ⟨project, path, (Grows.request w p _).registry place⟩
  · obtain ⟨root, inside, relative, rfl⟩ := searched
    exact ⟨rfl, d.mem_entries_of_stat (Path.isAbsolute_join (rooted root inside) relative) there, place⟩

/-- What holds of a workspace while the units of a project are traversed. -/
structure Traversable (d : Disk) (p : ProjectId) (n : Nat) (w : Workspace) : Prop where
  wellFormed : w.WellFormed
  described : w.Described
  ready : w.Ready
  fits : w.Fits d p n
  rooted : ∀ c ∈ w.projects, c.Rooted

def IsMember (p : ProjectId) (w : Workspace) (id : UnitId) : Prop :=
  ∃ u, w.unit? id = some u ∧ u.project = p

/-- The dependencies recorded for the version that a unit has now. -/
def recorded (w : Workspace) (id : UnitId) : Option (List UnitId) :=
  (w.unit? id).bind fun u => if u.isResolved then some u.dependencies else none

theorem recorded_eq_some (found : w.recorded id = some ds) :
    ∃ u, w.unit? id = some u ∧ u.isResolved ∧ u.dependencies = ds := by
  obtain ⟨u, unit, same⟩ := bind_eq_some_iff.mp found
  split at same
  · rename_i current
    exact ⟨u, unit, current, some.inj same⟩
  · cases same

theorem recorded_of_isResolved (found : w.unit? id = some u) (current : u.isResolved) :
    w.recorded id = some u.dependencies := by
  simp [recorded, found, current]

theorem currentDependencies_of_recorded (found : w.recorded id = some ds) : w.currentDependencies id = ds := by
  obtain ⟨u, unit, current, same⟩ := recorded_eq_some found
  simp [currentDependencies, unit, current, same]

theorem Grows.recorded (grown : w.Grows later) (found : w.recorded id = some ds) : later.recorded id = some ds := by
  obtain ⟨u, unit, current, rfl⟩ := recorded_eq_some found
  obtain ⟨v, next, kept⟩ := grown.unit unit
  obtain ⟨still, same, _⟩ := kept.resolved current
  rw [recorded_of_isResolved next still, same]

theorem Grows.isMember (grown : w.Grows later) (mem : w.IsMember p id) : later.IsMember p id := by
  obtain ⟨u, unit, project⟩ := mem
  obtain ⟨v, next, kept⟩ := grown.unit unit
  exact ⟨v, next, kept.project.trans project⟩

section Dependencies

/-- Dependencies are found whenever nothing keeps a tree back. -/
theorem dependencies_isSome (ready : w.Ready) (free : ∀ path, d.isHeld path = false)
    (found : w.unit? id = some u) : ∃ ds, (w.dependencies d false id).1 = some ds := by
  obtain ⟨r, tree, _⟩ := ready.exists_tree free found
  rcases dependencies_cases found d false with ⟨_, same⟩ | ⟨_, none, _⟩ | ⟨_, _, _, same⟩
  · exact ⟨_, by rw [same]⟩
  · rw [tree] at none
    cases none
  · exact ⟨_, by rw [same]⟩

theorem Traversable.dependencies (state : w.Traversable d p n) (free : ∀ path, d.isHeld path = false)
    (mem : w.IsMember p id) : (w.dependencies d false id).2.Traversable d p n := by
  obtain ⟨u, found, rfl⟩ := mem
  refine dependencies_preserves (motive := Traversable d u.project n) state.wellFormed state.described state ?_ ?_ ?_ false
  · exact ⟨state.wellFormed.startParse d id, state.described.startParse d id, state.ready.startParse free id,
      state.fits.stays (.startParse w d id), by simpa using state.rooted⟩
  · intro v later path unit there ⟨c, config, searched⟩ middle
    obtain rfl := Option.mem_unique found unit
    exact ⟨middle.wellFormed.request _ _, middle.described.request _ _, middle.ready.request _ _,
      middle.fits.request (state.rooted c (mem_of_getElem? config)) searched there,
      (Grows.request later _ _).projects ▸ middle.rooted⟩
  · intro v r x _ done middle
    exact ⟨done.wellFormed, done.described, middle.ready.setDependencies done.unit _ _,
      middle.fits.stays (.setDependencies done.unit _ _), by simpa [Resolution.store] using middle.rooted⟩

end Dependencies

section Traversal

theorem dependenciesM_eq (d : Disk) (id : UnitId) (w : Workspace) :
    dependenciesM d id w = ((w.dependencies d false id).1.getD [], (w.dependencies d false id).2) :=
  rfl

/-- Dependencies are recorded as a traversal asks for them; `extra` is whatever else requests for
dependencies keep. -/
theorem recorder_dependencies (free : ∀ path, d.isHeld path = false) (p : ProjectId) (n : Nat)
    {extra : Workspace → Prop}
    (kept : ∀ w id, w.Traversable d p n → extra w → extra (w.dependencies d false id).2) :
    Recorder (dependenciesM d) (fun w => w.Traversable d p n ∧ extra w) (IsMember p) recorded := by
  have answered : ∀ w id, Traversable d p n w → IsMember p w id → ∃ ds v, (w.dependencies d false id).1 = some ds ∧
        (w.dependencies d false id).2.unit? id = some v ∧ v.isResolved ∧ v.dependencies = ds := by
    intro w id state ⟨u, found, _⟩
    obtain ⟨ds, answer⟩ := dependencies_isSome state.ready free found
    obtain ⟨v, unit⟩ := dependencies_recorded state.wellFormed state.described found answer
    exact ⟨ds, v, answer, unit⟩
  have grown : ∀ w id, Traversable d p n w → w.Grows (w.dependencies d false id).2 :=
    fun w id state => (dependencies_grows state.wellFormed state.described d false id).2.2
  refine ⟨fun w id state mem => ⟨state.1.dependencies free mem, kept w id state.1 state.2⟩,
    fun w id v state _ other => (grown w id state.1).isMember other,
    fun w id state mem t target => ?_, fun w id state mem => ?_,
    fun w id v ds state _ known => (grown w id state.1).recorded known⟩
  · obtain ⟨ds, v, answer, unit, _, same⟩ := answered w id state.1 mem
    have later := state.1.dependencies free mem
    rw [dependenciesM_eq] at target ⊢
    simp only [answer] at target
    obtain ⟨x, found, project⟩ := later.wellFormed.targets unit t (same ▸ target)
    obtain ⟨y, next, own⟩ := (grown w id state.1).isMember mem
    rw [unit] at next
    injection next with next
    exact ⟨x, found, project.trans (next ▸ own)⟩
  · obtain ⟨ds, v, answer, unit, current, same⟩ := answered w id state.1 mem
    rw [dependenciesM_eq]
    simp only [answer, getD_some]
    rw [recorded_of_isResolved unit current, same]

/-- The edges that were dropped, in the order of the events. -/
theorem ofKind_cycle_events (ok : w.WellFormed) (events : List (LinkOrder.Event UnitId)) :
    ofKind .cycle (events.flatMap w.eventDiagnostics) =
      (events.filterMap LinkOrder.Event.edge?).map fun e => w.cycleWarning e.1 e.2 := by
  have silent : ∀ id, ofKind .cycle (w.dependencyDiagnostics id) = [] := by
    intro id
    refine filter_eq_nil_iff.mpr fun x mem => ?_
    unfold dependencyDiagnostics at mem
    cases found : w.unit? id with
    | none => simp [found] at mem
    | some u =>
      simp only [found] at mem
      simp [(ok.unit found).kinds x mem]
  induction events with
  | nil => rfl
  | cons event events ih =>
    have split : ofKind .cycle ((event :: events).flatMap w.eventDiagnostics) =
        ofKind .cycle (w.eventDiagnostics event) ++
          ofKind .cycle (events.flatMap w.eventDiagnostics) := by
      simp [ofKind]
    rw [split, ih]
    cases event with
    | entered u =>
      rw [filterMap_cons_none rfl]
      simp [eventDiagnostics, silent]
    | dropped u d => rfl

theorem reachable_eq (w : Workspace) (d : Disk) (roots : List UnitId) : w.reachable d false roots = (some
        ((visitRoots (dependenciesM d) (w.depthBound d) roots {} w).1.done.reverse,
          (visitRoots (dependenciesM d) (w.depthBound d) roots {} w).1.events.reverse.flatMap
            (visitRoots (dependenciesM d) (w.depthBound d) roots {} w).2.eventDiagnostics),
        (visitRoots (dependenciesM d) (w.depthBound d) roots {} w).2) := by
  cases roots <;> rfl

theorem WellFormed.nodup_currentDependencies (ok : w.WellFormed) (id : UnitId) : (w.currentDependencies id).Nodup := by
  unfold currentDependencies
  split
  · rename_i u found
    split
    · exact (ok.unit found).unique
    · exact nodup_nil
  · exact nodup_nil

theorem WellFormed.currentDependencies_lt (ok : w.WellFormed) {t : UnitId}
    (target : t ∈ w.currentDependencies id) : t < w.pool.length := by
  unfold currentDependencies at target
  split at target
  · rename_i u found
    split at target
    · obtain ⟨v, unit, _⟩ := ok.targets found t target
      exact lt_length_of_unit? unit
    · cases target
  · cases target

/-- The outcome of a traversal, described by the workspace that it leaves. -/
structure Reaches (w : Workspace) (d : Disk) (p : ProjectId) (roots : List UnitId)
    (t : Traversal UnitId) (later : Workspace) : Prop where
  answer : w.reachable d false roots = (some (t.done.reverse, t.events.reverse.flatMap later.eventDiagnostics), later)
  state : later.Traversable d p w.pool.length
  grows : w.Grows later
  walk : t = walkRoots later.currentDependencies (w.depthBound d) roots {}
  room : later.pool.length ≤ w.depthBound d
  complete : ∀ v ∈ t.done, later.IsMember p v ∧ (later.recorded v).isSome
  order : IsLinkOrder later.currentDependencies roots t.done.reverse t.dropped.reverse

theorem Reaches.plan_eq {root : UnitId} {t : Traversal UnitId} (reaches : w.Reaches d p [root] t later) :
    w.plan d false root =
      (some (⟨root, t.done.reverse, t.done.reverse.filter fun id => (later.unit? id).any (·.isEmittable)⟩,
        t.events.reverse.flatMap later.eventDiagnostics), later) := by
  simp [plan, reaches.answer]

theorem exists_reaches (ok : w.WellFormed) (known : w.Described) (ready : w.Ready)
    (rooted : ∀ c ∈ w.projects, c.Rooted) (free : ∀ path, d.isHeld path = false) {roots : List UnitId}
    (members : ∀ r ∈ roots, w.IsMember p r) (extra : Workspace → Prop) (also : extra w)
    (kept : ∀ x id, extra x → extra (x.dependencies d false id).2) :
    ∃ t later, w.Reaches d p roots t later ∧ extra later := by
  have state : w.Traversable d p w.pool.length :=
    ⟨ok, known, ready, fun _ _ found late => absurd (lt_length_of_unit? found) (Nat.not_lt.mpr late), rooted⟩
  have keeps : ∀ x id, x.Traversable d p w.pool.length → w.Grows x ∧ extra x →
      w.Grows (x.dependencies d false id).2 ∧ extra (x.dependencies d false id).2 :=
    fun x id good ⟨grown, more⟩ =>
      ⟨grown.trans (dependencies_grows good.wellFormed good.described d false id).2.2, kept x id more⟩
  have follows := visitRoots_follows (recorder_dependencies free p w.pool.length keeps) (w.depthBound d)
    roots {} w ⟨state, .refl w, also⟩ members
  have answer := w.reachable_eq d roots
  generalize visitRoots (dependenciesM d) (w.depthBound d) roots {} w = outcome at follows answer
  obtain ⟨t, later⟩ := outcome
  obtain ⟨⟨good, grown, more⟩, known, _⟩ := follows.later
  have walk : t = walkRoots later.currentDependencies (w.depthBound d) roots {} :=
    (follows.same later.currentDependencies fun v ds => currentDependencies_of_recorded).symm
  have room : later.pool.length ≤ w.depthBound d := by
    have bound : later.pool.length ≤ w.pool.length + d.entries.length := good.fits.length_le
    simp only [depthBound]
    omega
  have order : IsLinkOrder later.currentDependencies roots t.done.reverse t.dropped.reverse := by
    have fuel : (range later.pool.length).length ≤ w.depthBound d := by rwa [length_range]
    rw [walk]
    refine isLinkOrder_walkRoots (fun u _ t target => ?_) good.wellFormed.nodup_currentDependencies
      (fun r mem => ?_) fuel
    · exact mem_range.mpr (good.wellFormed.currentDependencies_lt target)
    · obtain ⟨u, unit, _⟩ := known r (members r mem)
      exact mem_range.mpr (lt_length_of_unit? unit)
  refine ⟨t, later, ⟨answer, good, grown, walk, room, fun v mem => ?_, order⟩, more⟩
  exact (follows.complete v mem).resolve_left not_mem_nil

end Traversal

/-- `u` has recorded for its version that it depends on `t`. -/
def DependsOn (w : Workspace) (u t : UnitId) : Prop := t ∈ w.currentDependencies u

theorem dependencies_of_recorded (known : w.recorded id = some ds) (d : Disk) (canceled : Bool) :
    w.dependencies d canceled id = (some ds, w) := by
  obtain ⟨u, found, current, rfl⟩ := recorded_eq_some known
  simp [dependencies, found, current]

/-- The units that some units of a project reach come out once each, after what they depend on, apart from the edges
that were dropped and reported. -/
theorem reachable_isLinkOrder (ok : w.WellFormed) (known : w.Described) (ready : w.Ready)
    (rooted : ∀ c ∈ w.projects, c.Rooted) (free : ∀ path, d.isHeld path = false)
    {roots : List UnitId} (members : ∀ r ∈ roots, w.IsMember p r) :
    ∃ (order : List UnitId) (ds : List Diagnostic) (later : Workspace)
      (dropped : List (UnitId × UnitId)),
      w.reachable d false roots = (some (order, ds), later) ∧ w.Grows later ∧
      (∀ u ∈ order, later.dependencies d false u = (some (later.currentDependencies u), later)) ∧
      order.Nodup ∧
      (∀ u, u ∈ order ↔ ∃ r ∈ roots, ReflTransGen later.DependsOn r u) ∧
      dropped.Nodup ∧
      ofKind .cycle ds = dropped.map (fun e => later.cycleWarning e.1 e.2) ∧
      (∀ u ∈ order, ∀ t, later.DependsOn u t → ((u, t) ∈ dropped ↔ ¬ Precedes order t u)) ∧
      (∀ u t, (u, t) ∈ dropped → u ∈ order ∧ later.DependsOn u t ∧ ReflTransGen later.DependsOn t u) ∧
      (ofKind .cycle ds = [] ↔ ∀ u ∈ order, ¬ TransGen later.DependsOn u u) := by
  obtain ⟨t, later, reaches, _⟩ := exists_reaches ok known ready rooted free members (fun _ => True) trivial
    fun _ _ _ => trivial
  have link := reaches.order
  have reported : ofKind .cycle (t.events.reverse.flatMap later.eventDiagnostics) =
      t.dropped.reverse.map fun e => later.cycleWarning e.1 e.2 := by
    rw [ofKind_cycle_events reaches.state.wellFormed, List.filterMap_reverse]
    rfl
  refine ⟨_, _, later, t.dropped.reverse, reaches.answer, reaches.grows, fun u member => ?_, link.nodup,
    link.mem_iff, link.once, reported, link.dropped_iff, link.closes, ?_⟩
  · obtain ⟨_, found⟩ := reaches.complete u (List.mem_reverse.mp member)
    obtain ⟨ds, found⟩ := Option.isSome_iff_exists.mp found
    rw [dependencies_of_recorded found, currentDependencies_of_recorded found]
  · rw [reported, List.map_eq_nil_iff]
    exact link.dropped_eq_nil_iff

def mutualFiles : Disk :=
  { entries := [("/src/A.kn", { content := "import B" }), ("/src/B.kn", { content := "import A" })] }

def mutualProject : ProjectConfig :=
  { name := "app", sourcePaths := ["/src"], extensions := [(".kn", .source)] }

theorem rooted_mutualProject : ∀ c ∈ [mutualProject], c.Rooted := by
  intro c mem root inside
  rw [mem_singleton.mp mem] at inside
  rw [mem_singleton.mp inside]
  rfl

def mutualUnits : Workspace := ((fresh [mutualProject] {}).request 0 "/src/A.kn").2

theorem mutualUnits_unit? : mutualUnits.unit? 0 =
    some { project := 0, path := "/src/A.kn", spec := ⟨.source, "A", false⟩ } := by rfl

theorem reachable_mutualUnits : ∃ order ds later,
    mutualUnits.reachable mutualFiles false [0] = (some (order, ds), later) ∧ order.Nodup ∧
      ∀ u, u ∈ order ↔ ReflTransGen later.DependsOn 0 u := by
  have ready : mutualUnits.Ready := Ready.request (fun _ _ found => by cases found) 0 _
  obtain ⟨order, ds, later, _, answer, _, _, nodup, members, _⟩ :=
    reachable_isLinkOrder (d := mutualFiles) (p := 0) ((wellFormed_fresh _ _).request 0 _)
      ((described_fresh _ _).request 0 _) ready rooted_mutualProject (fun _ => rfl)
      (fun r member => by rw [List.mem_singleton.mp member]; exact ⟨_, mutualUnits_unit?, rfl⟩)
  exact ⟨order, ds, later, answer, nodup, fun u => by simpa using members u⟩

end Workspace

end ScriptBuild
