import ScriptBuild.Proofs.ValidWorkspace

/-! The steps of a build. -/

namespace ScriptBuild

open List Workspace

open LinkOrder

namespace ProjectConfig

def source (c : ProjectConfig) (d : Disk) (path : Text) : SourceFile × List Diagnostic :=
  match c.describe path with
  | none => (SourceFile.empty path, [])
  | some spec =>
    match d.read path with
    | .error e => (SourceFile.empty path, [Workspace.readFailure path e])
    | .ok content => spec.kind.parse path content

def linksAt (c : ProjectConfig) (d : Disk) (path : Text) : Links :=
  c.links d path (c.source d path).1

def displayName (c : ProjectConfig) (path : Text) : Text :=
  ((c.describe path).map fun spec => if spec.name.isEmpty then path else spec.name).getD []

def isEmittable (c : ProjectConfig) (path : Text) : Bool :=
  (c.describe path).any fun spec => !spec.isLibrary && spec.kind != .resource

def eventDiagnostics (c : ProjectConfig) (d : Disk) : LinkOrder.Event Text → List Diagnostic
  | .entered path => (c.linksAt d path).diagnostics
  | .dropped u t =>
    [.warning .cycle u 0
      ("dependency cycle: " ++ c.displayName u ++ " -> " ++ c.displayName t ++ "; edge dropped")]

def traversal (c : ProjectConfig) (d : Disk) (depth : Nat) (root : Text) : Traversal Text :=
  walkRoots (fun path => (c.linksAt d path).targets) depth [root] {}

/-- The qualified name of a type in a file; a name that cannot be qualified stays as it is. -/
def qualify (c : ProjectConfig) (f : SourceFile) (name : Text) : Text :=
  if name.isEmpty then name
  else if (c.qualifiedName f name).isEmpty then name
  else c.qualifiedName f name

end ProjectConfig

namespace Workspace

variable {w later : Workspace} {d : Disk} {p : ProjectId} {id : UnitId} {u : CompilationUnit}
  {contents : Text → Prop} {projects : List ProjectConfig} {c : ProjectConfig}

theorem unitPath_of_unit? (found : w.unit? id = some u) : w.unitPath id = u.path := by
  simp [unitPath, found]

theorem Grows.unitPath (grown : w.Grows later) (found : w.unit? id = some u) : later.unitPath id = w.unitPath id := by
  obtain ⟨v, next, kept⟩ := grown.unit found
  rw [unitPath_of_unit? found, unitPath_of_unit? next, kept.path]

theorem Grows.map_unitPath (grown : w.Grows later) {ids : List UnitId}
    (members : ∀ id ∈ ids, w.IsMember p id) : ids.map later.unitPath = ids.map w.unitPath :=
  map_congr_left fun id mem => by
    obtain ⟨u, found, _⟩ := members id mem
    exact grown.unitPath found

section Units

variable (valid : w.Valid projects contents d []) (config : projects[p]? = some c)

include valid config

theorem Valid.describe (found : w.unit? id = some u) (own : u.project = p) :
    c.describe (w.unitPath id) = some u.spec := by
  have described := (valid.placed id u found).2.1
  have project : w.project? u.project = some c := by
    rw [project?, valid.projects, own, config]
  rw [describe_eq project] at described
  rw [unitPath_of_unit? found, described]

theorem Valid.source {r : SyntaxResult} (mem : w.IsMember p id) (has : w.HasTree id u r) :
    (r.file, r.diagnostics) = c.source d (w.unitPath id) := by
  obtain ⟨v, found, own⟩ := mem
  obtain rfl := Option.mem_unique has.found found
  obtain ⟨past, tree, _, clean, _⟩ := valid.reads id u r found has.finished
  have described := valid.describe config found own
  rw [unitPath_of_unit? found] at described ⊢
  have read := clean not_mem_nil
  unfold ProjectConfig.source
  rw [described, tree]
  unfold parseUnit
  rw [read]
  cases d.read u.path <;> rfl

theorem Valid.exists_tree (suits : d.Suits projects contents) (mem : w.IsMember p id) :
    ∃ r v, w.tree d false id = (some r, w.startParse d id) ∧ (w.startParse d id).HasTree id v r ∧
      (r.file, r.diagnostics) = c.source d (w.unitPath id) := by
  have ⟨u, found, _⟩ := mem
  obtain ⟨r, tree, has⟩ := valid.ready.exists_tree suits.free found
  have grown := Grows.startParse w d id
  refine ⟨r, _, tree, has, ?_⟩
  rw [← grown.unitPath found]
  exact (valid.startParse suits id).source config (grown.isMember mem) has

omit config in
theorem Valid.unitPath_injective {i j : UnitId} (first : w.IsMember p i) (second : w.IsMember p j)
    (same : w.unitPath i = w.unitPath j) : i = j := by
  obtain ⟨u, foundU, ownU⟩ := first
  obtain ⟨v, foundV, ownV⟩ := second
  rw [unitPath_of_unit? foundU, unitPath_of_unit? foundV] at same
  have placeU := (valid.placed i u foundU).1
  have placeV := (valid.placed j v foundV).1
  rw [ownU, same] at placeU
  rw [ownV, placeU] at placeV
  exact Option.some.inj placeV

/-- What is recorded for a unit is what the references of its file lead to. -/
theorem Valid.linksAt (mem : w.IsMember p id) (known : (w.recorded id).isSome) :
    (w.currentDependencies id).map w.unitPath = (c.linksAt d (w.unitPath id)).targets ∧
      w.dependencyDiagnostics id = (c.linksAt d (w.unitPath id)).diagnostics := by
  obtain ⟨ds, known⟩ := Option.isSome_iff_exists.mp known
  obtain ⟨u, found, current, rfl⟩ := recorded_eq_some known
  obtain ⟨v, same, own⟩ := mem
  obtain rfl := Option.mem_unique found same
  obtain ⟨r, finished⟩ := (valid.wellFormed.unit found).tree current
  have file : r.file = (c.source d (w.unitPath id)).1 :=
    congrArg Prod.fst (valid.source config ⟨u, found, own⟩ ⟨found, finished⟩)
  have project : w.project? u.project = some c := by
    rw [project?, valid.projects, own, config]
  obtain ⟨targets, diagnostics⟩ :=
    valid.linked id u ⟨found, (valid.placed id u found).1⟩ current r c finished project
  rw [← unitPath_of_unit? found, file] at targets diagnostics
  constructor
  · rw [currentDependencies_of_recorded known]
    exact valid.wellFormed.map_unitPath targets
  · simp [dependencyDiagnostics, found, diagnostics, ProjectConfig.linksAt]

end Units

section Plan

variable {root : UnitId} {t : Traversal UnitId} (reaches : w.Reaches d p [root] t later)

include reaches

theorem Reaches.root_mem : root ∈ t.done :=
  mem_reverse.mp ((reaches.order.mem_iff root).mpr ⟨root, mem_singleton_self root, .refl⟩)

theorem Reaches.closed : ∀ u ∈ t.done, ∀ v ∈ later.currentDependencies u, v ∈ t.done := by
  intro u mem v edge
  obtain ⟨r, start, path⟩ := (reaches.order.mem_iff u).mp (mem_reverse.mpr mem)
  exact mem_reverse.mp ((reaches.order.mem_iff v).mpr ⟨r, start, path.tail edge⟩)

theorem Reaches.length_done_le : t.done.length ≤ w.depthBound d := by
  have inside : ∀ v ∈ t.done, v ∈ range later.pool.length := by
    intro v mem
    obtain ⟨⟨u, found, _⟩, _⟩ := reaches.complete v mem
    exact mem_range.mpr (lt_length_of_unit? found)
  have bound := ((nodup_reverse.mp reaches.order.nodup).subperm inside).length_le
  rw [length_range] at bound
  exact Nat.le_trans bound reaches.room

variable (valid : later.Valid projects contents d []) (config : projects[p]? = some c)

include valid config

theorem Reaches.traversal (more : Nat) :
    c.traversal d (w.depthBound d + more) (later.unitPath root) = t.map later.unitPath ∧ t.Within t.done := by
  have distinct : ∀ u ∈ t.done, ∀ v ∈ t.done, later.unitPath u = later.unitPath v → u = v :=
    fun u inU v inV => valid.unitPath_injective (reaches.complete u inU).1 (reaches.complete v inV).1
  have edges : ∀ u ∈ t.done, (c.linksAt d (later.unitPath u)).targets =
      (later.currentDependencies u).map later.unitPath := by
    intro u mem
    obtain ⟨own, known⟩ := reaches.complete u mem
    exact (valid.linksAt config own known).1.symm
  have walked := walkRoots_map distinct reaches.closed (h := fun path => (c.linksAt d path).targets) edges
    reaches.length_done_le more [root] {} (.start _) rfl (by simpa using reaches.root_mem)
  rwa [← reaches.walk] at walked

omit reaches in
theorem Valid.displayName (mem : later.IsMember p id) :
    later.displayName id = c.displayName (later.unitPath id) := by
  obtain ⟨u, found, own⟩ := mem
  have described := valid.describe config found own
  rw [unitPath_of_unit? found] at described
  simp [Workspace.displayName, ProjectConfig.displayName, CompilationUnit.displayName, unitPath_of_unit? found, found,
    described]

omit reaches in
theorem Valid.isEmittable (mem : later.IsMember p id) :
    (later.unit? id).any (·.isEmittable) = c.isEmittable (later.unitPath id) := by
  obtain ⟨u, found, own⟩ := mem
  simp [ProjectConfig.isEmittable, valid.describe config found own, found, CompilationUnit.isEmittable]

theorem Reaches.eventDiagnostics : t.events.reverse.flatMap later.eventDiagnostics =
      (t.map later.unitPath).events.reverse.flatMap (c.eventDiagnostics d) := by
  have each : ∀ e ∈ t.events.reverse, later.eventDiagnostics e = c.eventDiagnostics d (e.map later.unitPath) := by
    intro e mem
    have within := (reaches.traversal valid config 0).2.events e (mem_reverse.mp mem)
    cases e with
    | entered u =>
      obtain ⟨own, known⟩ := reaches.complete u within
      exact (valid.linksAt config own known).2
    | dropped u v =>
      obtain ⟨ownU, _⟩ := reaches.complete u within.1
      obtain ⟨ownV, _⟩ := reaches.complete v within.2
      simp [Workspace.eventDiagnostics, ProjectConfig.eventDiagnostics, LinkOrder.Event.map, cycleWarning,
        valid.displayName config ownU, valid.displayName config ownV]
  simp only [Traversal.map, ← map_reverse, flatMap_map]
  exact flatMap_congr each

theorem Reaches.emitted : (t.done.reverse.filter fun id => (later.unit? id).any (·.isEmittable)).map later.unitPath =
      (t.map later.unitPath).done.reverse.filter c.isEmittable := by
  have each : ∀ id ∈ t.done.reverse, (later.unit? id).any (·.isEmittable) = c.isEmittable (later.unitPath id) := by
    intro id mem
    obtain ⟨own, _⟩ := reaches.complete id (mem_reverse.mp mem)
    exact valid.isEmittable config own
  simp only [Traversal.map, ← map_reverse, filter_map]
  rw [filter_congr each]
  rfl

end Plan

end Workspace

namespace Workspace

section Fingerprints

variable {w : Workspace} {d : Disk}
  {motive : Workspace → Prop} (parse : ∀ x id, motive x → motive (x.startParse d id))

include parse

theorem fileDigest_preserves (start : motive w) (canceled : Bool) (known : List (UnitId × Text))
    (id : UnitId) : motive (w.fileDigest d canceled known id).2 := by
  unfold fileDigest
  split
  · exact start
  · dsimp only
    rw [tree_snd]
    exact parse w id start

theorem fileDigests_preserves (canceled : Bool) (ids : List UnitId) :
    ∀ {w : Workspace} (known), motive w → motive (w.fileDigests d canceled known ids).2 := by
  induction ids with
  | nil => exact fun _ start => start
  | cons id ids ih =>
    intro w known start
    have first := fileDigest_preserves parse start canceled known id
    unfold fileDigests
    split
    · rename_i same
      rwa [same] at first
    · rename_i known _ same
      rw [same] at first
      have second := ih known first
      split <;> rename_i again <;> rwa [again] at second

theorem addFingerprints_preserves (canceled : Bool) (ids : List UnitId) :
    ∀ {w : Workspace} {known table}, motive w → motive (w.addFingerprints d canceled known table ids).2 := by
  induction ids with
  | nil => exact fun start => start
  | cons id ids ih =>
    intro w known table start
    have first := fileDigest_preserves parse start canceled known id
    unfold addFingerprints
    split
    · rename_i same
      rwa [same] at first
    · rename_i file known later same
      rw [same] at first
      have second := fileDigests_preserves parse canceled (later.currentDependencies id) known first
      split <;> rename_i again <;> rw [again] at second
      · exact second
      · exact ih second

theorem fingerprints_preserves (canceled : Bool) (ids : List UnitId) (start : motive w) :
    motive (w.fingerprints d canceled ids).2 :=
  addFingerprints_preserves parse canceled ids start

theorem treeDiagnostics_preserves (ids : List UnitId) :
    ∀ {w : Workspace}, motive w → motive (Builder.treeDiagnostics w d ids).2 := by
  induction ids with
  | nil => exact fun start => start
  | cons id ids ih =>
    intro w start
    have parsed := parse w id start
    rw [← w.tree_snd d false id] at parsed
    exact ih parsed

end Fingerprints

variable {d : Disk} {motive : Workspace → Prop} {w later : Workspace} {p : ProjectId} {id : UnitId}
  {u : CompilationUnit} {tree : SyntaxResult}

def tree? (w : Workspace) (id : UnitId) : Option SyntaxResult :=
  (w.unit? id).bind fun u =>
    match u.cell with
    | .finished tree => some tree
    | .idle | .started => none

theorem HasTree.tree?_eq (has : w.HasTree id u tree) : w.tree? id = some tree := by
  simp [tree?, has.found, has.finished]

theorem HasTree.grows (has : w.HasTree id u tree) (grown : w.Grows later) :
    ∃ v, later.HasTree id v tree ∧ u.Keeps v := by
  obtain ⟨v, next, kept⟩ := grown.unit has.found
  exact ⟨v, ⟨next, kept.tree tree has.finished⟩, kept⟩

/-- The diagnostics of trees are those of the trees that there are afterwards. -/
theorem Ready.treeDiagnostics (free : ∀ path, d.isHeld path = false) (ids : List UnitId) :
    ∀ {w : Workspace}, w.Ready → (∀ id ∈ ids, w.IsMember p id) → w.Grows (Builder.treeDiagnostics w d ids).2 ∧
        (∀ id ∈ ids, ∃ u tree, (Builder.treeDiagnostics w d ids).2.HasTree id u tree) ∧
        ∀ later : Workspace, (Builder.treeDiagnostics w d ids).2.Grows later → (Builder.treeDiagnostics w d ids).1 =
            ids.flatMap fun id => ((later.tree? id).map (·.diagnostics)).getD [] := by
  induction ids with
  | nil => exact fun _ _ => ⟨.refl _, fun id absent => absurd absent not_mem_nil, fun _ _ => rfl⟩
  | cons id ids ih =>
    intro w ready members
    obtain ⟨⟨u, found, _⟩, others⟩ := forall_mem_cons.mp members
    obtain ⟨tree, answer, has⟩ := ready.exists_tree free found
    have grown := Grows.startParse w d id
    obtain ⟨grows, trees, reports⟩ :=
      ih (ready.startParse free id) fun j inside => grown.isMember (others j inside)
    have step : Builder.treeDiagnostics w d (id :: ids) =
        (tree.diagnostics ++ (Builder.treeDiagnostics (w.startParse d id) d ids).1,
          (Builder.treeDiagnostics (w.startParse d id) d ids).2) := by
      simp [Builder.treeDiagnostics, answer]
    rw [step]
    refine ⟨grown.trans grows, ?_, fun later more => ?_⟩
    · obtain ⟨x, next, _⟩ := has.grows grows
      exact forall_mem_cons.mpr ⟨⟨x, tree, next⟩, trees⟩
    · obtain ⟨x, next, _⟩ := has.grows (grows.trans more)
      rw [flatMap_cons, next.tree?_eq, reports later more]
      rfl

theorem reachable_preserves (resolve : ∀ x canceled id, motive x → motive (x.dependencies d canceled id).2)
    (start : motive w) (canceled : Bool) (roots : List UnitId) : motive (w.reachable d canceled roots).2 := by
  have step : ∀ id x, motive x → motive (dependenciesM d id x).2 :=
    fun id x good => resolve x false id good
  have visited := LinkOrder.visitRoots_preserves step (w.depthBound d) roots {} w start
  cases canceled with
  | false => cases roots <;> exact visited
  | true =>
    cases roots with
    | nil => exact visited
    | cons root roots => exact resolve w true root start

theorem plan_preserves (resolve : ∀ x canceled id, motive x → motive (x.dependencies d canceled id).2)
    (start : motive w) (canceled : Bool) (root : UnitId) : motive (w.plan d canceled root).2 := by
  have reached := reachable_preserves resolve start canceled [root]
  unfold plan
  split <;> rename_i same <;> rwa [same] at reached

end Workspace

/-- The emission of a unit while its bodies are read. -/
structure Reading where
  unit : CompilationUnit
  tree : SyntaxResult
  bodies : BodyTable := []
  diagnostics : List Diagnostic := []
  /-- The functions that are left. -/
  rest : List Function

def BuildState.withBodies {σ : Type} (s : BuildState σ) (cache : BodyCache) : BuildState σ :=
  { s with workspace := { s.workspace with bodies := cache } }

namespace Builder

variable {σ : Type} {b : Builder σ} {motive : BuildState σ → Prop} {s : BuildState σ}

/-- What every step of a build keeps. -/
structure Keeps (b : Builder σ) (motive : BuildState σ → Prop) : Prop where
  request : ∀ s path, motive s →
    motive { s with workspace := (s.workspace.request b.project ((b.diskOf s.world).absolute path)).2 }
  parse : ∀ s id, motive s → motive { s with workspace := s.workspace.startParse (b.diskOf s.world) id }
  resolve : ∀ s canceled id, motive s →
    motive { s with workspace := (s.workspace.dependencies (b.diskOf s.world) canceled id).2 }
  bodies : ∀ s cache, motive s → motive { s with workspace := { s.workspace with bodies := cache } }
  prepare : ∀ s, motive s → motive { s with world := (b.writer.prepare s.world).2 }
  write : ∀ s name text, motive s →
    let place := artifactPath b.settings.backend.subdir name b.settings.backend.extension
    motive { s with world := (b.writer.write s.world place text).2 }

theorem Keeps.writeArtifact (keeps : b.Keeps motive) (start : motive s) (id : UnitId)
    (u : CompilationUnit) (text : Text) (ds : List Diagnostic) :
    motive (b.writeArtifact s id u text ds).2 := by
  have written := keeps.write s u.spec.name text start
  dsimp only at written
  unfold Builder.writeArtifact
  dsimp only
  split <;> rename_i same <;> rwa [same] at written

def conclude (b : Builder σ) (s : BuildState σ) (id : UnitId) (r : Reading) : UnitOutcome × BuildState σ :=
  if Diagnostic.hasErrors r.diagnostics then ({ unit := id, diagnostics := r.diagnostics }, s)
  else
    let context : EmitContext :=
      { settings := b.settings
        file := r.tree.file
        unitName := some r.unit.spec.name
        qualify := qualify s.workspace b.project r.tree.file
        bodies := r.bodies }
    b.writeArtifact s id r.unit (emitFile context).text r.diagnostics

def readRest (b : Builder σ) (s : BuildState σ) (id : UnitId) (r : Reading) : UnitOutcome × BuildState σ :=
  let ((bodies, ds), cache) := s.workspace.bodies.resolveAll id r.tree.version r.rest
  b.conclude (s.withBodies cache) id
    { r with bodies := r.bodies ++ bodies, diagnostics := r.diagnostics ++ ds, rest := [] }

def emitParsed (b : Builder σ) (s : BuildState σ) (id : UnitId) :
    Option CompilationUnit → Option SyntaxResult → UnitOutcome × BuildState σ
  | some u, some tree =>
    if tree.hasErrors then ({ unit := id }, s)
    else b.readRest s id { unit := u, tree, rest := tree.file.emittedFunctions }
  | _, _ => ({ unit := id }, s)

theorem emitUnit_eq (b : Builder σ) (s : BuildState σ) (id : UnitId) : b.emitUnit s id =
    b.emitParsed { s with workspace := s.workspace.startParse (b.diskOf s.world) id } id (s.workspace.unit? id)
      (s.workspace.tree (b.diskOf s.world) b.canceled id).1 := by
  rw [← s.workspace.tree_snd (b.diskOf s.world) b.canceled id]
  unfold emitUnit
  generalize s.workspace.tree (b.diskOf s.world) b.canceled id = answer
  obtain ⟨tree, later⟩ := answer
  cases s.workspace.unit? id with
  | none => rfl
  | some u => cases tree <;> rfl

variable (keeps : b.Keeps motive) (ids : List UnitId)

include keeps

theorem Keeps.emitUnit (start : motive s) (id : UnitId) : motive (b.emitUnit s id).2 := by
  have parsed := keeps.parse s id start
  rw [emitUnit_eq]
  unfold emitParsed
  split
  · split
    · exact parsed
    · have cached := fun cache => keeps.bodies _ cache parsed
      unfold readRest conclude
      dsimp only
      split
      · exact cached _
      · exact keeps.writeArtifact (cached _) id _ _ _
  · exact parsed

theorem Keeps.emitUnits : ∀ {s : BuildState σ}, motive s → motive (b.emitUnits s ids).2 := by
  induction ids with
  | nil => exact fun start => start
  | cons id ids ih => exact fun start => ih (keeps.emitUnit start id)

theorem Keeps.execute (start : motive s) (root : UnitId) (plan : BuildPlan) (ds : List Diagnostic) :
    motive (b.execute s root plan ds).2 := by
  have parsed := Workspace.treeDiagnostics_preserves (d := b.diskOf s.world)
    (motive := fun x => motive { s with workspace := x }) (fun x id good => keeps.parse _ id good) plan.reachable start
  have emitted := keeps.emitUnits plan.emitted parsed
  exact Workspace.fingerprints_preserves
    (motive := fun x => motive { (b.emitUnits _ plan.emitted).2 with workspace := x })
    (fun x id good => keeps.parse _ id good) false plan.reachable emitted

theorem Keeps.build (start : motive s) (path : Text) : motive (b.build s path).2 := by
  have requested := keeps.request s path start
  unfold Builder.build buildWith buildFrom
  split
  · rename_i same
    rwa [same] at requested
  · rename_i root w same
    rw [same] at requested
    have prepared := keeps.prepare _ requested
    split
    · rename_i outcome
      rwa [outcome] at prepared
    · rename_i world outcome
      rw [outcome] at prepared
      have resolve : ∀ x canceled id, motive ⟨x, world⟩ →
          motive ⟨(x.dependencies (b.diskOf world) canceled id).2, world⟩ :=
        fun x canceled id good => keeps.resolve ⟨x, world⟩ canceled id good
      have planned := Workspace.plan_preserves resolve prepared
        b.canceled root
      split
      · rename_i answer
        rwa [answer] at planned
      · rename_i plan ds _ answer
        rw [answer] at planned
        split
        · exact planned
        · exact keeps.execute planned root plan ds

end Builder

end ScriptBuild
