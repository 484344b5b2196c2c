import ScriptBuild.Proofs.SoundWorkspace

/-! The emission of a unit, step by step. -/

namespace ScriptBuild

open List BodyCache

variable {key : BodyKey} {later : BodyCache} {u : CompilationUnit} {tree : SyntaxResult} {w : Workspace}
  {id : UnitId}

namespace BodyCache

variable {c : BodyCache} {unit version : Nat} {f : SourceFile} {g : Function} {body : Body}

def lookUp (c : BodyCache) (key : BodyKey) : Option (Block × List Diagnostic) × BodyCache :=
  match c.entries.lookup key with
  | some parsed =>
    (some parsed, { c with
        entries := (key, parsed) :: c.entries.filter fun (k, _) => k != key
        hits := c.hits + 1 })
  | none => (none, { c with misses := c.misses + 1 })

def keep (c : BodyCache) (key : BodyKey) (parsed : Block × List Diagnostic) : BodyCache :=
  { c with entries := ((key, parsed) :: c.entries.filter fun (k, _) => k != key).take c.size }

theorem resolve_of_hit {parsed : Block × List Diagnostic} (hit : c.lookUp key = (some parsed, later))
    (body : Body) : c.resolve key body = (parsed, later) := by
  unfold lookUp at hit
  split at hit
  · rename_i found
    cases hit
    simp [resolve, found]
  · cases hit

theorem resolve_of_miss (miss : c.lookUp key = (none, later)) (body : Body) :
    c.resolve key body = (body.parse, later.keep key body.parse) := by
  unfold lookUp at miss
  split at miss
  · cases miss
  · rename_i found
    cases miss
    have others : c.entries.filter (fun (k, _) => k != key) = c.entries := by
      refine filter_eq_self.mpr fun e mem => ?_
      have other := lookup_eq_none_iff.mp found e mem
      exact bne_iff_ne.mpr (bne_iff_ne.mp other).symm
    simp [resolve, found, keep, others]

theorem extends_lookUp (c : BodyCache) (key : BodyKey) (f : SourceFile) :
    c.Extends (c.lookUp key).2 unit version f := by
  intro e mem
  unfold lookUp at mem
  split at mem
  · rename_i parsed found
    obtain ⟨front, back, split, _⟩ := lookup_eq_some_iff.mp found
    rcases mem_cons.mp mem with rfl | kept
    · rw [split]
      exact .inl (mem_append_right _ mem_cons_self)
    · exact .inl (mem_filter.mp kept).1
  · exact .inl mem

theorem extends_keep (distinct : ∀ g ∈ f.emittedFunctions, ∀ h ∈ f.emittedFunctions, g.line = h.line → g = h)
    (mem : g ∈ f.emittedFunctions) (has : g.body = some body) (c : BodyCache) :
    c.Extends (c.keep ⟨unit, version, g.line⟩ body.parse) unit version f := by
  intro e inside
  rcases mem_cons.mp (mem_of_mem_take inside) with rfl | old
  · exact .inr ⟨rfl, rfl, agrees_parse distinct mem has⟩
  · exact .inl (mem_filter.mp old).1

end BodyCache

def Reading.add (r : Reading) (line : Nat) (parsed : Block × List Diagnostic) : Reading :=
  { r with
    bodies := r.bodies ++ [(line, parsed.1.statements)]
    diagnostics := r.diagnostics ++ parsed.2 }

/-- How far the emission of a unit is. -/
inductive Phase where
  | waiting
  | reading (r : Reading)
  /-- The body of a function was looked up in vain. -/
  | missed (r : Reading) (line : Nat) (body : Body)
  | done (outcome : UnitOutcome)

namespace Builder

variable {σ : Type} {b : Builder σ} {s : BuildState σ} {world : σ} {phase : Phase}

def advance (b : Builder σ) (s : BuildState σ) (id : UnitId) : Phase → Phase × BuildState σ
  | .waiting =>
    match s.workspace.unit? id, s.workspace.tree (b.diskOf s.world) b.canceled id with
    | some u, (some tree, workspace) =>
      if tree.hasErrors then (.done { unit := id }, { s with workspace })
      else (.reading { unit := u, tree, rest := tree.file.emittedFunctions }, { s with workspace })
    | _, (_, workspace) => (.done { unit := id }, { s with workspace })
  | .reading r =>
    match r.rest with
    | [] => (.done (b.conclude s id r).1, (b.conclude s id r).2)
    | f :: rest =>
      match f.body with
      | none => (.reading { r with rest }, s)
      | some body =>
        match s.workspace.bodies.lookUp ⟨id, r.tree.version, f.line⟩ with
        | (some parsed, cache) => (.reading ({ r with rest }.add f.line parsed), s.withBodies cache)
        | (none, cache) => (.missed { r with rest } f.line body, s.withBodies cache)
  | .missed r line body =>
    (.reading (r.add line body.parse), s.withBodies (s.workspace.bodies.keep ⟨id, r.tree.version, line⟩ body.parse))
  | .done outcome => (.done outcome, s)

def complete (b : Builder σ) (s : BuildState σ) (id : UnitId) : Phase → UnitOutcome × BuildState σ
  | .waiting => b.emitUnit s id
  | .reading r => b.readRest s id r
  | .missed r line body =>
    b.readRest (s.withBodies (s.workspace.bodies.keep ⟨id, r.tree.version, line⟩ body.parse)) id
      (r.add line body.parse)
  | .done outcome => (outcome, s)

section Steps

variable {r : Reading} {f : Function} {rest : List Function} {body : Body}

theorem readRest_nil (last : r.rest = []) : b.readRest s id r = b.conclude s id r := by
  obtain ⟨unit, tree, bodies, ds, left⟩ := r
  subst last
  simp only [readRest, resolveAll, append_nil]
  rfl

theorem readRest_cons_none (left : r.rest = f :: rest) (has : f.body = none) :
    b.readRest s id r = b.readRest s id { r with rest } := by
  simp [readRest, left, resolveAll, has]

theorem readRest_cons_some (b : Builder σ) (s : BuildState σ) (id : UnitId) (left : r.rest = f :: rest)
    (has : f.body = some body) :
    let found := s.workspace.bodies.resolve ⟨id, r.tree.version, f.line⟩ body
    b.readRest s id r = b.readRest (s.withBodies found.2) id ({ r with rest }.add f.line found.1) := by
  simp only [readRest, left, resolveAll_cons_some has, Reading.add, append_assoc, singleton_append]
  rfl

end Steps

/-- A step does a part of the emission and leaves the rest. -/
theorem complete_advance (b : Builder σ) (s : BuildState σ) (id : UnitId) (phase : Phase) :
    b.complete (b.advance s id phase).2 id (b.advance s id phase).1 = b.complete s id phase := by
  cases phase with
  | waiting =>
    rw [complete, emitUnit_eq, ← s.workspace.tree_snd (b.diskOf s.world) b.canceled id]
    simp only [advance]
    generalize s.workspace.tree (b.diskOf s.world) b.canceled id = answer
    obtain ⟨tree, later⟩ := answer
    cases s.workspace.unit? id with
    | none => rfl
    | some u =>
      cases tree with
      | none => rfl
      | some tree =>
        simp only [emitParsed]
        split <;> rfl
  | reading r =>
    simp only [advance]
    split
    · rename_i last
      simp only [complete]
      rw [readRest_nil last]
    · rename_i f rest left
      split
      · rename_i has
        simp only [complete]
        rw [readRest_cons_none left has]
      · rename_i body has
        have step := b.readRest_cons_some s id left has
        split
        · rename_i parsed cache hit
          simp only [complete]
          rw [step, resolve_of_hit hit]
        · rename_i cache miss
          simp only [complete]
          rw [step, resolve_of_miss miss]
          rfl
  | missed r line body | done outcome => rfl

def place (b : Builder σ) (u : CompilationUnit) : Text :=
  artifactPath b.settings.backend.subdir u.spec.name b.settings.backend.extension

/-- A builder whose writes succeed or fail by the place alone, in a world whose files can be read. -/
structure Pathwise (b : Builder σ) (usable : σ → Prop) (result : Text → Except WriteError Unit) : Prop where
  free : ∀ world, usable world → ∀ path, (b.diskOf world).isHeld path = false
  prepare : ∀ world, usable world → usable (b.writer.prepare world).2
  write : ∀ world place text, usable world →
    (b.writer.write world place text).1 = result place ∧ usable (b.writer.write world place text).2

def written (b : Builder σ) (result : Text → Except WriteError Unit) (id : UnitId) (u : CompilationUnit)
    (text : Text) (ds : List Diagnostic) : UnitOutcome :=
  match result (b.place u) with
  | .ok () => ⟨id, some ⟨id, b.place u, text.length⟩, ds, false⟩
  | .error e =>
    ⟨id, none, ds ++ [.error .failedAccess u.path 0 ("write " ++ b.place u ++ ": " ++ e.message)], true⟩

/-- What becomes of a unit whose bodies have been read. -/
def verdict (b : Builder σ) (result : Text → Except WriteError Unit) (w : Workspace) (id : UnitId)
    (r : Reading) : UnitOutcome :=
  if Diagnostic.hasErrors r.diagnostics then { unit := id, diagnostics := r.diagnostics }
  else
    let context : EmitContext :=
      { settings := b.settings
        file := r.tree.file
        unitName := some r.unit.spec.name
        qualify := qualify w b.project r.tree.file
        bodies := r.bodies }
    b.written result id r.unit (emitFile context).text r.diagnostics

end Builder

/-- A state in which the units are those of `w`; other bodies may be kept, and the world may have
changed. -/
structure BuildState.Shares {σ : Type} (usable : σ → Prop) (w : Workspace) (s : BuildState σ) : Prop where
  workspace : ∃ cache, s.workspace = { w with bodies := cache }
  bodies : s.workspace.BodiesAgree
  world : usable s.world

theorem Workspace.HasTree.isOf (has : w.HasTree id u tree) (sound : w.Sound) : tree.IsOf u.path :=
  (sound.units id u has.found).tree tree has.finished

theorem Workspace.HasTree.version_eq (has : w.HasTree id u tree) (sound : w.Sound) : tree.version = u.version :=
  (sound.wellFormed.unit has.found).version tree has.finished

/-- What is left to read are functions of the tree of the unit. -/
structure Reading.Fits (w : Workspace) (id : UnitId) (r : Reading) : Prop where
  tree : w.HasTree id r.unit r.tree
  rest : ∀ f ∈ r.rest, f ∈ r.tree.file.emittedFunctions

/-- A phase that the emission of a unit of `w` comes through. -/
def Phase.Fits (w : Workspace) (id : UnitId) : Phase → Prop
  | .waiting => ∃ u tree, w.HasTree id u tree
  | .reading r => r.Fits w id
  | .missed r line body =>
    r.Fits w id ∧ ∃ f ∈ r.tree.file.emittedFunctions, f.line = line ∧ f.body = some body
  | .done _ => True

def Reading.whole (r : Reading) : Reading :=
  { r with
    bodies := r.bodies ++ (parseBodies r.rest).1
    diagnostics := r.diagnostics ++ (parseBodies r.rest).2
    rest := [] }

section Sharing

variable {σ : Type} {usable : σ → Prop} {s : BuildState σ} {cache : BodyCache} {world : σ}

namespace BuildState.Shares

variable (shares : s.Shares usable w)

include shares

theorem unit? (id : UnitId) : s.workspace.unit? id = w.unit? id := by
  obtain ⟨cache, same⟩ := shares.workspace
  rw [same]
  rfl

theorem projects : s.workspace.projects = w.projects := by
  obtain ⟨cache, same⟩ := shares.workspace
  rw [same]

theorem found (has : w.HasTree id u tree) : s.workspace.unit? id = some u :=
  (shares.unit? id).trans has.found

theorem withWorld {world : σ} (fit : usable world) : ({ s with world } : BuildState σ).Shares usable w :=
  ⟨shares.workspace, shares.bodies, fit⟩

theorem withBodies (has : w.HasTree id u tree) (more : s.workspace.bodies.Extends cache id u.version tree.file) :
    (s.withBodies cache).Shares usable w := by
  refine ⟨?_, shares.bodies.extends (shares.found has) has.finished more, shares.world⟩
  obtain ⟨old, same⟩ := shares.workspace
  exact ⟨cache, by rw [BuildState.withBodies, same]⟩

theorem holds (has : w.HasTree id u tree) : s.workspace.bodies.Holds id u.version tree.file :=
  shares.bodies.holds (shares.found has) has.finished

theorem tree_eq (has : w.HasTree id u tree) (d : Disk) : s.workspace.tree d false id = (some tree, s.workspace) := by
  have found := shares.found has
  have same : s.workspace.startParse d id = s.workspace := by
    simp [Workspace.startParse, found, has.finished]
  have answer : (s.workspace.tree d false id).1 = some tree :=
    Workspace.tree_of_finished (same.symm ▸ found) has.finished
  exact Prod.ext answer ((s.workspace.tree_snd d false id).trans same)

end BuildState.Shares

end Sharing

namespace Builder

variable {σ : Type} {b : Builder σ} {usable : σ → Prop} {result : Text → Except WriteError Unit}
  {s : BuildState σ} {r : Reading} {world : σ} {phase : Phase}

theorem writeArtifact_spec (pathwise : b.Pathwise usable result) (shares : s.Shares usable w) (id : UnitId)
    (u : CompilationUnit) (text : Text) (ds : List Diagnostic) :
    (b.writeArtifact s id u text ds).1 = b.written result id u text ds ∧
      (b.writeArtifact s id u text ds).2.Shares usable w := by
  obtain ⟨answer, fit⟩ := pathwise.write s.world (b.place u) text shares.world
  unfold writeArtifact written
  rw [← answer]
  dsimp only [place] at fit ⊢
  generalize b.writer.write s.world
    (artifactPath b.settings.backend.subdir u.spec.name b.settings.backend.extension) text = write at fit
  obtain ⟨outcome, world⟩ := write
  cases outcome with
  | ok done | error e => exact ⟨rfl, shares.withWorld fit⟩

theorem conclude_spec (pathwise : b.Pathwise usable result) (shares : s.Shares usable w) (id : UnitId) (r : Reading) :
    (b.conclude s id r).1 = b.verdict result w id r ∧ (b.conclude s id r).2.Shares usable w := by
  have names : qualify s.workspace b.project r.tree.file = qualify w b.project r.tree.file := by
    funext name
    simp [qualify, Workspace.project?, shares.projects]
  unfold conclude verdict
  split
  · exact ⟨rfl, shares⟩
  · rw [names]
    exact writeArtifact_spec pathwise shares id r.unit _ _

section Soundness

variable (sound : w.Sound) (pathwise : b.Pathwise usable result)

include sound in
theorem shares_keep (shares : s.Shares usable w) (fits : r.Fits w id) {f : Function} {body : Body}
    (mem : f ∈ r.tree.file.emittedFunctions) (has : f.body = some body) :
    (s.withBodies (s.workspace.bodies.keep ⟨id, r.tree.version, f.line⟩ body.parse)).Shares usable w := by
  rw [fits.tree.version_eq sound]
  exact shares.withBodies fits.tree (extends_keep (fits.tree.isOf sound).lines mem has _)

include sound pathwise

theorem readRest_spec (shares : s.Shares usable w) (fits : r.Fits w id) :
    (b.readRest s id r).1 = b.verdict result w id r.whole ∧ (b.readRest s id r).2.Shares usable w := by
  obtain ⟨bodies, more⟩ := resolveAll_eq (fits.tree.isOf sound).lines r.rest
    (shares.holds fits.tree) fits.rest
  have step : b.readRest s id r =
      b.conclude (s.withBodies (s.workspace.bodies.resolveAll id r.unit.version r.rest).2) id r.whole := by
    simp only [readRest, fits.tree.version_eq sound, bodies]
    rfl
  rw [step]
  exact conclude_spec pathwise (shares.withBodies fits.tree more) id r.whole

theorem emitUnit_spec_of_hasTree (active : b.canceled = false) (shares : s.Shares usable w)
    (has : w.HasTree id u tree) :
    (b.emitUnit s id).1 = (if tree.hasErrors then { unit := id }
        else b.verdict result w id
          (Reading.whole { unit := u, tree, rest := tree.file.emittedFunctions })) ∧
      (b.emitUnit s id).2.Shares usable w := by
  have asked := shares.tree_eq has (b.diskOf s.world)
  have parsed := (s.workspace.tree_snd (b.diskOf s.world) false id).symm
  rw [asked] at parsed
  rw [emitUnit_eq, shares.found has, active, asked, parsed]
  simp only [emitParsed]
  split
  · exact ⟨rfl, shares⟩
  · exact readRest_spec sound pathwise shares ⟨has, fun f mem => mem⟩

/-- What a unit comes to from a phase on is the same in all states that share its workspace. -/
theorem complete_spec (active : b.canceled = false) (fits : phase.Fits w id) :
    ∃ outcome, ∀ s : BuildState σ, s.Shares usable w →
      (b.complete s id phase).1 = outcome ∧ (b.complete s id phase).2.Shares usable w := by
  cases phase with
  | waiting =>
    obtain ⟨u, tree, has⟩ := fits
    exact ⟨_, fun s shares => emitUnit_spec_of_hasTree sound pathwise active shares has⟩
  | reading r => exact ⟨_, fun s shares => readRest_spec sound pathwise shares fits⟩
  | missed r line body =>
    obtain ⟨fits, f, mem, rfl, has⟩ := fits
    have added : (r.add f.line body.parse).Fits w id := ⟨fits.tree, fits.rest⟩
    refine ⟨b.verdict result w id (r.add f.line body.parse).whole, fun s shares => ?_⟩
    exact readRest_spec sound pathwise (shares_keep sound shares fits mem has) added
  | done outcome => exact ⟨outcome, fun s shares => ⟨rfl, shares⟩⟩

/-- A step leads to a phase of the same unit and changes nothing that is shared. -/
theorem advance_spec (active : b.canceled = false) (shares : s.Shares usable w) (fits : phase.Fits w id) :
    (b.advance s id phase).1.Fits w id ∧ (b.advance s id phase).2.Shares usable w := by
  cases phase with
  | waiting =>
    obtain ⟨u, tree, has⟩ := fits
    simp only [advance, shares.found has, active, shares.tree_eq has]
    split
    · exact ⟨trivial, shares⟩
    · exact ⟨⟨has, fun f mem => mem⟩, shares⟩
  | reading r =>
    simp only [advance]
    split
    · exact ⟨trivial, (conclude_spec pathwise shares id r).2⟩
    · rename_i f rest left
      have mem : f ∈ r.tree.file.emittedFunctions := fits.rest f (left ▸ mem_cons_self)
      have others : ∀ g ∈ rest, g ∈ r.tree.file.emittedFunctions :=
        fun g inside => fits.rest g (left ▸ mem_cons_of_mem f inside)
      split
      · exact ⟨⟨fits.tree, others⟩, shares⟩
      · rename_i body has
        have looked := shares.withBodies fits.tree
          (s.workspace.bodies.extends_lookUp ⟨id, r.tree.version, f.line⟩ r.tree.file)
        split
        · rename_i parsed cache hit
          rw [hit] at looked
          exact ⟨⟨fits.tree, others⟩, looked⟩
        · rename_i cache miss
          rw [miss] at looked
          exact ⟨⟨⟨fits.tree, others⟩, f, mem, rfl, has⟩, looked⟩
  | missed r line body =>
    obtain ⟨fits, f, mem, rfl, has⟩ := fits
    exact ⟨⟨fits.tree, fits.rest⟩, shares_keep sound shares fits mem has⟩
  | done outcome => exact ⟨trivial, shares⟩

end Soundness

end Builder

variable {σ : Type}

/-- Units on their way, and the state that they share. -/
structure Emission (σ : Type) where
  state : BuildState σ
  slots : List (UnitId × Phase)

namespace Builder

def stepSlot (b : Builder σ) (e : Emission σ) (i : Nat) : Emission σ :=
  match e.slots[i]? with
  | none => e
  | some (id, phase) =>
    let (phase, state) := b.advance e.state id phase
    ⟨state, e.slots.set i (id, phase)⟩

def completeAll (b : Builder σ) (s : BuildState σ) : List (UnitId × Phase) → List UnitOutcome × BuildState σ
  | [] => ([], s)
  | (id, phase) :: slots =>
    let (outcome, s) := b.complete s id phase
    let (outcomes, s) := b.completeAll s slots
    (outcome :: outcomes, s)

/-- Emits units by a schedule, the list of the slots that take a step one after another, and completes what is left. -/
def emitBy (b : Builder σ) (schedule : List Nat) (s : BuildState σ) (ids : List UnitId) :
    List UnitOutcome × BuildState σ :=
  let e := schedule.foldl b.stepSlot ⟨s, ids.map fun id => (id, .waiting)⟩
  b.completeAll e.state e.slots

def buildBy (b : Builder σ) (schedule : List Nat) (s : BuildState σ) (path : Text) :
    Except BuildError BuildResult × BuildState σ :=
  b.buildWith (b.emitBy schedule) s path

theorem completeAll_waiting (b : Builder σ) (ids : List UnitId) :
    ∀ s : BuildState σ, b.completeAll s (ids.map fun id => (id, .waiting)) = b.emitUnits s ids := by
  induction ids with
  | nil => exact fun _ => rfl
  | cons id ids ih =>
    intro s
    simp [completeAll, emitUnits, ih, complete]

/-- A build is a build by the schedule that lets every unit finish before the next one starts. -/
theorem buildBy_nil (b : Builder σ) (s : BuildState σ) (path : Text) : b.buildBy [] s path = b.build s path := by
  have same : b.emitBy [] = b.emitUnits := by
    funext s ids
    exact completeAll_waiting b ids s
  rw [buildBy, same, build]

end Builder

variable {b : Builder σ} {usable : σ → Prop} {result : Text → Except WriteError Unit} {w : Workspace}
  {s : BuildState σ} {ids : List UnitId}

/-- What holds between any two steps: every unit still comes to what it comes to when it is emitted in
state `s`. -/
structure Emission.Consistent (b : Builder σ) (usable : σ → Prop) (w : Workspace) (s : BuildState σ)
    (ids : List UnitId) (e : Emission σ) : Prop where
  shares : e.state.Shares usable w
  units : e.slots.map (·.1) = ids
  fits : ∀ slot ∈ e.slots, slot.2.Fits w slot.1
  leads : ∀ slot ∈ e.slots, ∀ t : BuildState σ, t.Shares usable w →
    (b.complete t slot.1 slot.2).1 = (b.emitUnit s slot.1).1

namespace Builder

section Schedules

variable (sound : w.Sound) (pathwise : b.Pathwise usable result) (active : b.canceled = false)

include sound pathwise active

theorem consistent_start (shares : s.Shares usable w) (trees : ∀ id ∈ ids, ∃ u tree, w.HasTree id u tree) :
    Emission.Consistent b usable w s ids ⟨s, ids.map fun id => (id, .waiting)⟩ := by
  have waits : ∀ slot ∈ ids.map (fun id => (id, Phase.waiting)), slot.2 = .waiting ∧ slot.1 ∈ ids := by
    intro slot mem
    obtain ⟨id, inside, rfl⟩ := mem_map.mp mem
    exact ⟨rfl, inside⟩
  refine ⟨shares, by simp [Function.comp_def], fun slot mem => ?_, fun slot mem t also => ?_⟩
  · obtain ⟨phase, inside⟩ := waits slot mem
    rw [phase]
    exact trees slot.1 inside
  · obtain ⟨phase, inside⟩ := waits slot mem
    have fits : Phase.waiting.Fits w slot.1 := trees slot.1 inside
    obtain ⟨outcome, same⟩ := complete_spec sound pathwise active fits
    rw [phase]
    exact (same t also).1.trans (same s shares).1.symm

/-- After a step of one unit all units still come to the same. -/
theorem consistent_stepSlot {e : Emission σ} (good : e.Consistent b usable w s ids) (i : Nat) :
    (b.stepSlot e i).Consistent b usable w s ids := by
  unfold stepSlot
  split
  · exact good
  · rename_i id phase here
    have mem : (id, phase) ∈ e.slots := mem_of_getElem? here
    have fits := good.fits (id, phase) mem
    obtain ⟨nextFits, nextShares⟩ := advance_spec sound pathwise active good.shares fits
    have next := b.complete_advance e.state id phase
    generalize b.advance e.state id phase = step at nextFits nextShares next
    obtain ⟨later, state⟩ := step
    refine ⟨nextShares, ?_, fun slot inside => ?_, fun slot inside t also => ?_⟩
    · obtain ⟨bound, same⟩ := List.getElem?_eq_some_iff.mp here
      have inside : i < (e.slots.map (·.1)).length := by rwa [length_map]
      have unchanged := set_getElem_self inside
      rw [getElem_map, same] at unchanged
      rw [map_set, unchanged, good.units]
    · rcases mem_or_eq_of_mem_set inside with old | rfl
      · exact good.fits slot old
      · exact nextFits
    · rcases mem_or_eq_of_mem_set inside with old | rfl
      · exact good.leads slot old t also
      · -- the step was taken in another state than `t`, but from both states the unit comes to the same
        obtain ⟨outcome, same⟩ := complete_spec sound pathwise active nextFits
        rw [(same t also).1, ← (same state nextShares).1, next]
        exact good.leads (id, phase) mem e.state good.shares

theorem consistent_run (schedule : List Nat) : ∀ {e : Emission σ}, e.Consistent b usable w s ids →
      (schedule.foldl b.stepSlot e).Consistent b usable w s ids := by
  induction schedule with
  | nil => exact fun good => good
  | cons i schedule ih => exact fun good => ih (consistent_stepSlot sound pathwise active good i)

theorem completeAll_spec (slots : List (UnitId × Phase)) :
    ∀ {t : BuildState σ}, t.Shares usable w → (∀ slot ∈ slots, slot.2.Fits w slot.1) →
      (∀ slot ∈ slots, ∀ t : BuildState σ, t.Shares usable w →
        (b.complete t slot.1 slot.2).1 = (b.emitUnit s slot.1).1) →
      (b.completeAll t slots).1 = (slots.map (·.1)).map (fun id => (b.emitUnit s id).1) ∧
        (b.completeAll t slots).2.Shares usable w := by
  induction slots with
  | nil => exact fun shares _ _ => ⟨rfl, shares⟩
  | cons slot slots ih =>
    intro t shares fits leads
    obtain ⟨fit, fits⟩ := forall_mem_cons.mp fits
    obtain ⟨first, leads⟩ := forall_mem_cons.mp leads
    obtain ⟨outcome, same⟩ := complete_spec sound pathwise active fit
    obtain ⟨rest, last⟩ := ih (same t shares).2 fits leads
    exact ⟨congr (congrArg cons (first t shares)) rest, last⟩

/-- By every schedule the units come to what each of them comes to alone. -/
theorem emitBy_spec (shares : s.Shares usable w) (trees : ∀ id ∈ ids, ∃ u tree, w.HasTree id u tree)
    (schedule : List Nat) :
    (b.emitBy schedule s ids).1 = ids.map (fun id => (b.emitUnit s id).1) ∧
      (b.emitBy schedule s ids).2.Shares usable w := by
  have good := consistent_run sound pathwise active schedule
    (consistent_start sound pathwise active shares trees)
  have ends := completeAll_spec sound pathwise active _ good.shares good.fits good.leads
  rw [good.units] at ends
  exact ends

end Schedules

end Builder

end ScriptBuild
