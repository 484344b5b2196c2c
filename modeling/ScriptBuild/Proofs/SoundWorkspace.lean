import ScriptBuild.Proofs.BuildOutcome
import ScriptBuild.Proofs.CapturedBodies

/-! Workspaces that are sound by themselves, whatever became of the files since they were read. -/

namespace ScriptBuild

open List SourceFile Diagnostic

variable {content path : Text} {kind : UnitKind} {d : Diagnostic}

namespace Diagnostic

theorem hasErrors_iff {ds : List Diagnostic} : hasErrors ds ↔ ∃ d ∈ ds, d.isError := any_eq_true

end Diagnostic

section Markup

theorem file_of_errors_members {doc : Markup.Document} (mem : d ∈ Markup.errors (doc.members path)) :
    d.file = path := by
  obtain ⟨outcome, inside, failed⟩ := mem_filterMap.mp mem
  cases outcome with
  | ok v => cases failed
  | error e =>
    cases failed
    rcases mem_append.mp inside with property | child
    · obtain ⟨p, _, made⟩ := mem_map.mp property
      unfold Markup.Property.member at made
      split at made
      · cases made
        rfl
      · cases made
    · obtain ⟨c, _, made⟩ := mem_map.mp child
      unfold Markup.Child.member at made
      split at made
      · cases made
        rfl
      · split at made
        · cases made
          rfl
        · cases made

theorem file_of_parseMarkup (mem : d ∈ (parseMarkup path content).2) : d.file = path := by
  unfold parseMarkup at mem
  split at mem
  · rw [mem_singleton.mp mem]
    rfl
  · split at mem
    · rw [mem_singleton.mp mem]
      rfl
    · rcases mem_append.mp mem with undeclared | wrong
      · obtain ⟨lead, _, rfl⟩ := mem_map.mp undeclared
        rfl
      · exact file_of_errors_members wrong

end Markup

theorem file_of_kindParse (mem : d ∈ (kind.parse path content).2) : d.file = path := by
  cases kind with
  | source =>
    obtain ⟨r, tidy, same⟩ := tidy_parse path content
    change d ∈ (parse path content).2 at mem
    rw [same] at mem
    exact (tidy.reports d (mem_reverse.mp mem)).1
  | markup => exact file_of_parseMarkup mem
  | resource => cases mem

section Functions

variable {f : SourceFile} {g : Function} {b : Body}

theorem file_of_body_kindParse (mem : b ∈ (kind.parse path content).1.functionBodies)
    (reported : d ∈ b.parse.2) : d.file = path := by
  obtain ⟨g, function, has⟩ := mem_filterMap.mp mem
  cases kind with
  | source =>
    have captured := captured_parse function has
    obtain ⟨plain, fits, all⟩ := Body.diagnostics_parse captured.matched
    rw [← captured.file]
    rw [all] at reported
    rcases mem_append.mp reported with line | unclosed
    · exact (fits d line).1
    · obtain ⟨block, _, rfl⟩ := mem_map.mp unclosed
      rfl
  | markup =>
    change g ∈ (parseMarkup path content).1.functions at function
    rw [functions_parseMarkup] at function
    cases function
  | resource => cases function

end Functions

/-- What holds of the tree of the file at a path. -/
structure SyntaxResult.IsOf (path : Text) (r : SyntaxResult) : Prop where
  reports : ∀ d ∈ r.diagnostics, d.file = path
  lines : ∀ g ∈ r.file.emittedFunctions, ∀ h ∈ r.file.emittedFunctions, g.line = h.line → g = h
  bodies : ∀ b, b ∈ r.file.functionBodies ↔ ∃ g ∈ r.file.emittedFunctions, g.body = some b
  bodyReports : ∀ b ∈ r.file.functionBodies, ∀ d ∈ b.parse.2, d.file = path

theorem Workspace.isOf_parseUnit (d : Disk) (u : CompilationUnit) (version : Nat) :
    (parseUnit d u version).1.IsOf u.path := by
  unfold parseUnit
  split
  · refine ⟨fun x mem => ?_, fun g mem => ?_, fun b => ?_, fun b mem => ?_⟩
    · rw [mem_singleton.mp mem, readFailure]
      split <;> rfl
    · cases mem
    · constructor
      · exact fun absent => absurd absent not_mem_nil
      · rintro ⟨g, absent, _⟩
        cases absent
    · cases mem
  · refine ⟨fun x mem => file_of_kindParse mem, fun g first h second => ?_, fun b => ?_,
      fun b mem x reported => file_of_body_kindParse mem reported⟩
    · exact emittedFunctions_eq_of_line first second
    · exact (perm_functionBodies _ _ _).mem_iff.symm.trans mem_filterMap

section Bodies

variable {r : SyntaxResult}

theorem mem_parseBodies {fs : List Function} :
    d ∈ (parseBodies fs).2 ↔ ∃ g ∈ fs, ∃ b, g.body = some b ∧ d ∈ b.parse.2 := by
  induction fs with
  | nil => simp [parseBodies]
  | cons g fs ih =>
    cases has : g.body with
    | none => rw [BodyCache.parseBodies_cons_none has, ih]; simp [has]
    | some body => rw [BodyCache.parseBodies_cons_some has, mem_append, ih]; simp [has]

namespace SyntaxResult.IsOf

/-- The bodies that are read for the emission are wrong exactly if one of the bodies of the file is. -/
theorem hasErrors_bodies (tree : r.IsOf path) : Diagnostic.hasErrors (parseBodies r.file.emittedFunctions).2 =
      r.file.functionBodies.any fun b => Diagnostic.hasErrors b.parse.2 := by
  rw [Bool.eq_iff_iff, hasErrors_iff, any_eq_true]
  constructor
  · rintro ⟨d, mem, wrong⟩
    obtain ⟨g, emitted, b, has, reported⟩ := mem_parseBodies.mp mem
    exact ⟨b, (tree.bodies b).mpr ⟨g, emitted, has⟩, hasErrors_iff.mpr ⟨d, reported, wrong⟩⟩
  · rintro ⟨b, mem, failed⟩
    obtain ⟨g, emitted, has⟩ := (tree.bodies b).mp mem
    obtain ⟨d, reported, wrong⟩ := hasErrors_iff.mp failed
    exact ⟨d, mem_parseBodies.mpr ⟨g, emitted, b, has, reported⟩, wrong⟩

theorem file_of_bodies (tree : r.IsOf path) (mem : d ∈ (parseBodies r.file.emittedFunctions).2) : d.file = path := by
  obtain ⟨g, emitted, b, has, reported⟩ := mem_parseBodies.mp mem
  exact tree.bodyReports b ((tree.bodies b).mpr ⟨g, emitted, has⟩) d reported

end SyntaxResult.IsOf

end Bodies

open CompilationUnit

namespace CompilationUnit

/-- What holds of every unit, whenever its file was parsed. -/
structure IsSound (u : CompilationUnit) : Prop where
  tree : ∀ r, u.cell = .finished r → r.IsOf u.path
  warnings : ∀ x ∈ u.dependencyDiagnostics, x.isError = false
  ready : u.cell ≠ .started

theorem isSound_new (p : ProjectId) (path : Text) (spec : UnitSpec) : IsSound { project := p, path, spec } := by
  refine ⟨fun r finished => ?_, fun x mem => ?_, fun started => ?_⟩
  · cases finished
  · cases mem
  · cases started

variable {u : CompilationUnit}

theorem IsSound.parsed (sound : u.IsSound) {d : Disk} (free : ∀ path, d.isHeld path = false) :
    (u.parsed d).IsSound := by
  unfold CompilationUnit.parsed
  split
  · rw [free]
    refine ⟨fun r finished => ?_, sound.warnings, fun started => ?_⟩
    · cases finished
      exact Workspace.isOf_parseUnit d u u.version
    · cases started
  all_goals exact sound

theorem IsSound.invalidated (sound : u.IsSound) : u.invalidated.IsSound := by
  refine ⟨fun r finished => ?_, sound.warnings, fun started => ?_⟩
  · cases finished
  · cases started

end CompilationUnit

namespace Workspace

variable {w later : Workspace} {d : Disk} {p : ProjectId} {id : UnitId} {u : CompilationUnit}

structure Sound (w : Workspace) : Prop where
  wellFormed : w.WellFormed
  described : w.Described
  units : ∀ id u, w.unit? id = some u → u.IsSound
  bodies : w.BodiesAgree

theorem sound_fresh (projects : List ProjectConfig) {bodies : BodyCache} (empty : bodies.entries = []) :
    (fresh projects bodies).Sound := by
  have valid := valid_fresh projects (fun _ => True) {} empty
  refine ⟨valid.wellFormed, valid.described, fun id u found => ?_, valid.bodies⟩
  cases found

namespace Sound

variable (sound : w.Sound)

include sound

theorem ready : w.Ready := fun id u found => (sound.units id u found).ready

theorem request (p : ProjectId) (path : Text) : (w.request p path).2.Sound := by
  refine ⟨sound.wellFormed.request p path, sound.described.request p path, fun id u found => ?_,
    sound.bodies.grows (.request w p path) (by simp)⟩
  rcases of_unit?_request found with old | ⟨_, _, spec, _, new⟩
  · exact sound.units id u old
  · subst new
    exact isSound_new p path spec

theorem startParse (free : ∀ path, d.isHeld path = false) (id : UnitId) : (w.startParse d id).Sound := by
  refine ⟨sound.wellFormed.startParse d id, sound.described.startParse d id,
    fun j v found => ?_, sound.bodies.grows (.startParse w d id) (by simp)⟩
  rw [unit?_startParse] at found
  obtain ⟨u, old, new⟩ := Option.map_eq_some_iff.mp found
  split at new <;> subst new
  · exact (sound.units j u old).parsed free
  · exact sound.units j u old

theorem withBodies {cache : BodyCache} (agree : ({ w with bodies := cache } : Workspace).BodiesAgree) :
    ({ w with bodies := cache } : Workspace).Sound := by
  obtain ⟨keys, registered, unit, project, targets, indexed⟩ := sound.wellFormed
  exact ⟨⟨keys, registered, unit, project, targets, indexed⟩, sound.described, sound.units, agree⟩

end Sound

section References

variable {r : Resolution}

/-- A name that is not found is worth a warning at most. -/
theorem warnings_resolveReference (warnings : ∀ x ∈ r.diagnostics, x.isError = false) (d : Disk)
    (id : UnitId) (u : CompilationUnit) (f : SourceFile) (ref : Reference) :
    ∀ x ∈ (resolveReference d id u f r ref).diagnostics, x.isError = false := by
  obtain ⟨paths, complaint, same⟩ := exists_settle d id u f r ref
  rw [same]
  obtain ⟨_ | found, w⟩ := r.workspace.firstUnit d u.project paths
  · cases complaint with
    | none => exact warnings
    | some message => exact forall_mem_append.mpr ⟨warnings, forall_mem_singleton.mpr rfl⟩
  · rw [Resolution.settle, Resolution.diagnostics_add]
    exact warnings

theorem warnings_resolveAll (d : Disk) (id : UnitId) (u : CompilationUnit) (f : SourceFile) (refs : List Reference) :
    ∀ {r : Resolution}, (∀ x ∈ r.diagnostics, x.isError = false) →
      ∀ x ∈ (resolveAll d id u f r refs).diagnostics, x.isError = false := by
  induction refs with
  | nil => exact fun warnings => warnings
  | cons ref refs ih => exact fun warnings => ih (warnings_resolveReference warnings d id u f ref)

end References

namespace Sound

theorem dependencies (sound : w.Sound) (free : ∀ path, d.isHeld path = false) (canceled : Bool)
    (id : UnitId) : (w.dependencies d canceled id).2.Sound := by
  refine dependencies_preserves (motive := Sound) sound.wellFormed sound.described sound (sound.startParse free id)
    (fun _ _ _ later => later.request _ _) ?_ canceled
  intro u r v _ done later
  have warnings := warnings_resolveAll d id u r.file r.file.references
    (r := { workspace := w.startParse d id }) fun x absent => absurd absent not_mem_nil
  refine ⟨done.wellFormed, done.described, fun j x unit => ?_,
    later.bodies.grows (.setDependencies done.unit done.pending _ _) (bodies_setDependencies _ _ _ _ _)⟩
  rcases of_unit?_setDependencies done.unit unit with ⟨rfl, rfl⟩ | ⟨_, old⟩
  · have sound := later.units j v done.unit
    exact ⟨sound.tree, warnings, sound.ready⟩
  · exact later.units j x old

theorem refresh (sound : w.Sound) (d : Disk) (path : Text) : (w.refresh d path).2.Sound := by
  have unique := nodup_refreshed w d path
  rw [refresh_eq]
  refine ⟨sound.wellFormed.invalidateAll _, sound.described.invalidateAll _, fun j v found => ?_,
    sound.bodies.invalidateAll unique⟩
  rw [unit?_invalidateAll unique] at found
  obtain ⟨u, old, new⟩ := Option.map_eq_some_iff.mp found
  split at new <;> subst new
  · exact (sound.units j u old).invalidated
  · exact sound.units j u old

/-- Nothing that was found on the way to the reachable units is an error. -/
theorem warnings_events (sound : w.Sound) (events : List (LinkOrder.Event UnitId)) :
    hasErrors (events.flatMap w.eventDiagnostics) = false := by
  refine any_eq_false.mpr fun x mem => ?_
  obtain ⟨event, _, inside⟩ := mem_flatMap.mp mem
  cases event with
  | entered id =>
    change x ∈ w.dependencyDiagnostics id at inside
    unfold dependencyDiagnostics at inside
    cases found : w.unit? id with
    | none =>
      rw [found] at inside
      cases inside
    | some u =>
      rw [found] at inside
      simp [(sound.units id u found).warnings x inside]
  | dropped a b =>
    rw [mem_singleton.mp inside]
    exact Bool.false_ne_true

end Sound

end Workspace

end ScriptBuild
