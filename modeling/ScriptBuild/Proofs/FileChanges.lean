import ScriptBuild.Proofs.Faithful
import ScriptBuild.Proofs.FilePresence

/-! Files that are made, rewritten and removed. -/

namespace ScriptBuild

open List Workspace

open Relation

/-- A change of a file from outside. -/
inductive FileChange where
  /-- A file gets some content, whether it was there or not. -/
  | put (path content : Text)
  | remove (path : Text)

def FileChange.path : FileChange → Text
  | .put path _ => path
  | .remove path => path

def FileChange.apply (d : Disk) : FileChange → Disk
  | .put path content => d.putContent path content
  | .remove path => d.erase path

namespace Workspace

variable {w : Workspace} {d disk : Disk} {path : Text} {id : UnitId}

/-- A unit at a path was not parsed from what is there. -/
def IsStale (w : Workspace) (d : Disk) (path : Text) : Prop :=
  ∃ id ∈ w.atPath path, ∃ u, w.unit? id = some u ∧ u.fingerprint ≠ ((d.read path).toOption.map sha256).getD []

/-- A refresh of a path drops a unit: it depends, directly or not, on a unit at the path that is stale,
or, if there is no unit at the path yet, on one with a name that was not found. -/
def Drops (w : Workspace) (d : Disk) (path : Text) (id : UnitId) : Prop :=
  (w.IsStale d path ∧ ∃ s ∈ w.atPath path, ReflTransGen w.Indexes s id) ∨
  (w.atPath path = [] ∧ (d.read path).isOk ∧ ∃ p ∈ w.owners, (w.describe p path).isSome ∧
    ∃ s ∈ w.unresolved p, ReflTransGen w.Indexes s id)

/-- Whoever finds something else after a change is dropped by a refresh of a path. -/
def Heeds (w : Workspace) (before after : Disk) (path : Text) : Prop :=
  ∀ id u r c, w.IsRegistered id u → u.isResolved → u.cell = .finished r → w.project? u.project = some c →
    c.links after u.path r.file = c.links before u.path r.file ∨ w.Drops after path id

theorem any_fingerprint_iff_isStale : ((w.atPath path).any fun id => (w.unit? id).any fun u =>
      u.fingerprint != ((d.read path).toOption.map sha256).getD []) = true ↔ w.IsStale d path := by
  simp [any_eq_true, Option.any_eq_true, bne_iff_ne, IsStale]

theorem mem_refreshed_iff (ok : w.WellFormed) : id ∈ w.refreshed d path ↔ w.Drops d path id := by
  unfold refreshed Drops
  dsimp only
  split
  · rename_i stale
    rw [any_fingerprint_iff_isStale] at stale
    rw [mem_closure_iff ok.filed ok.filed.lt_length_of_mem_atPath]
    refine ⟨fun reached => .inl ⟨stale, reached⟩, ?_⟩
    rintro (⟨_, reached⟩ | ⟨none, _⟩)
    · exact reached
    · obtain ⟨s, mem, _⟩ := stale
      rw [none] at mem
      cases mem
  · rename_i fresh
    rw [any_fingerprint_iff_isStale] at fresh
    have readable : ((d.read path).toOption.isSome = true) ↔ (d.read path).isOk := by
      cases d.read path <;> simp [Except.toOption, Except.isOk, Except.toBool]
    split
    · rename_i new
      rw [Bool.and_eq_true_iff, List.isEmpty_iff, readable] at new
      rw [mem_closure_iff ok.filed fun s mem => ?_]
      · simp only [mem_flatMap, mem_filter]
        constructor
        · rintro ⟨s, ⟨p, ⟨owner, described⟩, pending⟩, reached⟩
          exact .inr ⟨new.1, new.2, p, owner, described, s, pending, reached⟩
        · rintro (⟨stale, _⟩ | ⟨_, _, p, owner, described, s, pending, reached⟩)
          · exact absurd stale fresh
          · exact ⟨s, ⟨p, ⟨owner, described⟩, pending⟩, reached⟩
      · obtain ⟨p, _, pending⟩ := mem_flatMap.mp mem
        exact ok.filed.lt_length_of_mem_unresolved s pending
    · rename_i known
      rw [Bool.and_eq_true_iff, List.isEmpty_iff, readable] at known
      refine ⟨fun mem => absurd mem not_mem_nil, ?_⟩
      rintro (⟨stale, _⟩ | ⟨none, content, _⟩)
      · exact absurd stale fresh
      · exact absurd ⟨none, content⟩ known

/-- A refresh after a change keeps the records right exactly if it heeds the change. -/
theorem faithful_refresh_iff (good : w.Coherent d) (disk : Disk) (path : Text) :
    (w.refresh disk path).2.Faithful disk ↔ w.Heeds d disk path := by
  have unique := w.nodup_refreshed disk path
  have projects : ∀ p, (w.invalidateAll (w.refreshed disk path)).project? p = w.project? p := by
    intro p
    rw [project?, projects_invalidateAll, project?]
  -- A refresh moves no unit and no project; it only takes records back.
  rw [refresh_eq, faithful_iff_allLinked (good.wellFormed.invalidateAll _) (good.described.invalidateAll _),
    good.linked.iff_links_eq good.wellFormed]
  · constructor
    · intro same id u r c registered current tree config
      by_cases dropped : id ∈ w.refreshed disk path
      · exact .inr ((mem_refreshed_iff good.wellFormed).mp dropped)
      · refine .inl (same id u r c c ⟨?_, ?_⟩ current tree config ((projects _).trans config))
        · rw [unit?_invalidateAll_of_not_mem unique dropped]
          exact registered.1
        · rw [lookup_invalidateAll]
          exact registered.2
    · rintro heeds id u r c c' ⟨found, place⟩ current tree config config'
      obtain ⟨kept, old⟩ := of_isResolved_invalidateAll good.wellFormed.filed unique found current
      rw [lookup_invalidateAll] at place
      rw [projects, config] at config'
      rw [← Option.some.inj config']
      refine (heeds id u r c ⟨old, place⟩ current tree config).resolve_right fun dropped => kept ?_
      exact (mem_refreshed_iff good.wellFormed).mpr dropped
  · rintro id u ⟨found, place⟩ current
    rw [lookup_invalidateAll] at place
    exact ⟨(of_isResolved_invalidateAll good.wellFormed.filed unique found current).2, place⟩
  · intro p place id found
    rwa [lookup_invalidateAll] at found
  · intro p c place id _ _ found
    rwa [lookup_invalidateAll]

/-- Some unit at a path was parsed from content that was there. -/
def IsNoted (w : Workspace) (path : Text) : Prop :=
  ∃ id ∈ w.atPath path, ∃ u, w.unit? id = some u ∧ u.fingerprint ≠ []

/-- Only names that were not found lead to a file that is new. -/
def Awaits (w : Workspace) (before after : Disk) (path : Text) : Prop :=
  ∀ id u r c, w.IsRegistered id u → u.isResolved → u.cell = .finished r →
    w.project? u.project = some c → ∀ ref ∈ r.file.references, c.find after r.file ref = .unit path →
    ∃ message, c.find before r.file ref = .missing message

/-- A file that goes is heeded if it was read when it was there, or was none of the units. -/
theorem Coherent.heeds_removal (good : w.Coherent d) (rooted : ∀ c ∈ w.projects, c.Rooted)
    (lacks : d.Lacks path disk) (unreadable : ¬ (disk.read path).isOk)
    (noted : w.atPath path = [] ∨ w.IsNoted path) : w.Heeds d disk path := by
  intro id u r c registered current tree config
  by_cases elsewhere : ∀ ref ∈ r.file.references, c.find d r.file ref ≠ .unit path
  · exact .inl (c.links_of_lacks (rooted c (mem_of_getElem? config)) lacks elsewhere)
  · push Not at elsewhere
    obtain ⟨ref, mem, found⟩ := elsewhere
    -- The unit at the path is stale: it was parsed from content, and there is none any more.
    obtain ⟨s, place, reached⟩ := good.exists_indexes registered current tree config mem found
    have here := mem_atPath_iff.mpr ⟨_, mem_of_lookup place⟩
    refine .inr (.inl ⟨?_, s, here, reached⟩)
    obtain ⟨t, inside, v, unit, parsed⟩ := noted.resolve_left (ne_nil_of_mem here)
    refine ⟨t, inside, v, unit, ?_⟩
    cases content : disk.read path with
    | error e => exact parsed
    | ok text =>
      rw [content] at unreadable
      exact absurd rfl unreadable

/-- A file that comes is heeded if there is no unit for it and only names that were not found lead
to it. -/
theorem Coherent.heeds_creation (good : w.Coherent d) (rooted : ∀ c ∈ w.projects, c.Rooted)
    (lacks : disk.Lacks path d) (readable : (disk.read path).isOk) (new : w.atPath path = [])
    (awaited : w.Awaits d disk path) : w.Heeds d disk path := by
  intro id u r c registered current tree config
  by_cases elsewhere : ∀ ref ∈ r.file.references, c.find disk r.file ref ≠ .unit path
  · exact .inl (c.links_of_lacks (rooted c (mem_of_getElem? config)) lacks elsewhere).symm
  · push Not at elsewhere
    obtain ⟨ref, mem, found⟩ := elsewhere
    obtain ⟨message, missing⟩ := awaited id u r c registered current tree config ref mem found
    -- What was not found is recorded, so the unit is among those that wait for new files.
    have pending := good.mem_unresolved registered current tree config mem missing
    refine .inr (.inr ⟨new, readable, u.project, good.traced.owner registered.2, ?_, id, pending, .refl⟩)
    rw [describe_eq config]
    exact ProjectConfig.describe_of_find found

theorem Coherent.refresh (good : w.Coherent d) (heeds : w.Heeds d disk path) :
    (w.refresh disk path).2.Coherent disk := by
  have faithful := (faithful_refresh_iff good disk path).mpr heeds
  rw [refresh_eq] at faithful ⊢
  have ok := good.wellFormed.invalidateAll (w.refreshed disk path)
  have known := good.described.invalidateAll (w.refreshed disk path)
  exact ⟨ok, known, (faithful_iff_allLinked ok known).mp faithful,
    good.traced.ages good.wellFormed.filed (.invalidateAll w _) (by rw [invalidateAll_eq])⟩

end Workspace

namespace FileChange

/-- A refresh of the path of a change drops all that the change leads elsewhere. -/
def IsHeeded (w : Workspace) (d : Disk) (change : FileChange) : Prop :=
  w.Heeds d (change.apply d) (d.absolute change.path)

/-- The changes that a workspace keeps track of by itself. -/
inductive IsTracked (w : Workspace) (d : Disk) : FileChange → Prop where
  /-- New content for a file in a directory. -/
  | rewrite {path content : Text} {file directory : DiskEntry} :
      Path.isAbsolute d.workingDirectory → d.find? path = some file → file.isDirectory = false →
      d.entries.lookup (d.parentKey (d.key path)) = some directory → directory.isDirectory →
      IsTracked w d (.put path content)
  /-- A file in a directory, where there is no unit yet, for names that were not found. -/
  | create {path content : Text} {directory : DiskEntry} : Path.isAbsolute path →
      d.find? path = none → d.entries.lookup (d.parentKey (d.key path)) = some directory →
      ((d.putContent path content).read (d.absolute path)).isOk → w.atPath (d.absolute path) = [] →
      w.Awaits d (d.putContent path content) (d.absolute path) → IsTracked w d (.put path content)
  /-- A file goes that was read before, or was none of the units. -/
  | remove {path : Text} : Path.isAbsolute path →
      w.atPath (d.absolute path) = [] ∨ w.IsNoted (d.absolute path) → IsTracked w d (.remove path)

theorem IsTracked.isHeeded {w : Workspace} {d : Disk} {change : FileChange}
    (tracked : change.IsTracked w d) (good : w.Coherent d) (rooted : ∀ c ∈ w.projects, c.Rooted) :
    change.IsHeeded w d := by
  cases tracked with
  | rewrite working found plain parent above =>
    exact fun _ u r _ _ _ _ config => .inl (((Disk.sameShape_putContent found plain parent above _).sameFiles working
      w.projects).links (mem_of_getElem? config) u.path r.file)
  | create absolute absent parent readable new awaited =>
    exact good.heeds_creation rooted (Disk.lacks_putContent absolute absent parent _) readable new awaited
  | remove absolute noted =>
    exact good.heeds_removal rooted (d.lacks_erase absolute) (d.not_isOk_read_erase absolute) noted

end FileChange

variable {σ : Type}

/-- The states that a workspace and the world around it come to, if each change of a file is permitted
and followed by a refresh of its path. -/
inductive History (diskOf : σ → Disk) (usable : σ → Prop) (projects : List ProjectConfig)
    (permits : Workspace → Disk → FileChange → Prop) : BuildState σ → Prop where
  | start {world : σ} (bodies : BodyCache) : usable world →
      History diskOf usable projects permits ⟨fresh projects bodies, world⟩
  | build {s : BuildState σ} (b : Builder σ) (path : Text) :
      History diskOf usable projects permits s → b.diskOf = diskOf → b.Spares usable projects →
      History diskOf usable projects permits (b.build s path).2
  | request {s : BuildState σ} (p : ProjectId) (path : Text) : History diskOf usable projects permits s →
      History diskOf usable projects permits
        { s with workspace := (s.workspace.request p ((diskOf s.world).absolute path)).2 }
  | tree {s : BuildState σ} (canceled : Bool) (id : UnitId) : History diskOf usable projects permits s →
      History diskOf usable projects permits
        { s with workspace := (s.workspace.tree (diskOf s.world) canceled id).2 }
  | dependencies {s : BuildState σ} (canceled : Bool) (id : UnitId) : History diskOf usable projects permits s →
      History diskOf usable projects permits
        { s with workspace := (s.workspace.dependencies (diskOf s.world) canceled id).2 }
  | change {s : BuildState σ} (world : σ) (change : FileChange) :
      History diskOf usable projects permits s → usable world →
      diskOf world = change.apply (diskOf s.world) → permits s.workspace (diskOf s.world) change →
      History diskOf usable projects permits
        ⟨(s.workspace.refresh (diskOf world) ((diskOf s.world).absolute change.path)).2, world⟩

variable {diskOf : σ → Disk} {usable : σ → Prop} {projects : List ProjectConfig} {s : BuildState σ}

theorem History.coherent (history : History diskOf usable projects FileChange.IsHeeded s) :
    s.workspace.Coherent (diskOf s.world) ∧ s.workspace.projects = projects ∧ usable s.world := by
  induction history with
  | start bodies fit => exact ⟨.fresh projects bodies _, rfl, fit⟩
  | build b path _ same spares ih =>
    subst same
    exact (Builder.keeps_coherent spares).build ih path
  | request p path _ ih =>
    obtain ⟨good, same, fit⟩ := ih
    exact ⟨good.request _ _, (Workspace.Grows.request _ _ _).projects.trans same, fit⟩
  | tree canceled id _ ih =>
    obtain ⟨good, same, fit⟩ := ih
    refine ⟨good.tree canceled id, ?_, fit⟩
    rw [tree_snd, projects_startParse]
    exact same
  | dependencies canceled id _ ih =>
    obtain ⟨good, same, fit⟩ := ih
    obtain ⟨_, _, grown⟩ := dependencies_grows good.wellFormed good.described (diskOf _) canceled id
    exact ⟨good.dependencies canceled id, grown.projects.trans same, fit⟩
  | change world change _ fit disk heeded ih =>
    obtain ⟨good, same, _⟩ := ih
    rw [FileChange.IsHeeded, ← disk] at heeded
    refine ⟨good.refresh heeded, ?_, fit⟩
    rw [refresh_eq, projects_invalidateAll]
    exact same

/-- If all changes were heeded, as all are that are tracked, then resolving again gives what is recorded. -/
theorem History.faithful_refresh_iff_isHeeded (rooted : ∀ c ∈ projects, c.Rooted)
    (history : History diskOf usable projects FileChange.IsHeeded s) (change : FileChange) :
    s.workspace.Faithful (diskOf s.world) ∧
      ((s.workspace.refresh (change.apply (diskOf s.world))
          ((diskOf s.world).absolute change.path)).2.Faithful (change.apply (diskOf s.world)) ↔
        change.IsHeeded s.workspace (diskOf s.world)) ∧
      (change.IsTracked s.workspace (diskOf s.world) → change.IsHeeded s.workspace (diskOf s.world)) := by
  obtain ⟨good, same, _⟩ := history.coherent
  refine ⟨good.faithful, faithful_refresh_iff good _ _, fun tracked => ?_⟩
  exact tracked.isHeeded good (same ▸ rooted)

def awaitingFiles : Disk :=
  { entries := [("/src", { names := some ["A.kn"] }), ("/src/A.kn", { content := "import B" })] }

def supply : FileChange := .put "/src/B.kn" "class B"

def suppliedFiles : Disk := supply.apply awaitingFiles

/-- The import was looked for before there was the file. -/
def awaitingUnits : Workspace :=
  let asked := (fresh [mutualProject] {}).request 0 (awaitingFiles.absolute "/src/A.kn")
  (asked.2.dependencies awaitingFiles false 0).2

/-- Then the file came. -/
def suppliedState : BuildState Storage :=
  ⟨(awaitingUnits.refresh suppliedFiles (awaitingFiles.absolute supply.path)).2, { disk := suppliedFiles }⟩

theorem faithful_suppliedState :
    suppliedState.workspace.Faithful suppliedFiles ∧
      (suppliedState.workspace.refresh (suppliedFiles.erase supply.path)
        (suppliedFiles.absolute supply.path)).2.Faithful (suppliedFiles.erase supply.path) := by
  have start : History Storage.disk (fun _ => True) [mutualProject] FileChange.IsHeeded
      ⟨fresh [mutualProject] {}, { disk := awaitingFiles }⟩ := .start {} trivial
  have waiting := (start.request 0 "/src/A.kn").dependencies false 0
  have heeded : supply.IsHeeded awaitingUnits awaitingFiles := by
    intro id u r c registered current tree config
    have only : id = 0 := by
      have bound := lt_length_of_unit? registered.1
      rw [show awaitingUnits.pool.length = 1 by decide +kernel] at bound
      exact Nat.lt_one_iff.mp bound
    subst only
    refine Or.inr (Or.inr ⟨by decide +kernel, by decide +kernel, 0, by decide +kernel, by decide +kernel, 0,
      by decide +kernel, .refl⟩)
  have history := waiting.change ({ disk := suppliedFiles } : Storage) supply trivial rfl heeded
  obtain ⟨faithful, next, tracked⟩ :=
    history.faithful_refresh_iff_isHeeded rooted_mutualProject (.remove supply.path)
  refine ⟨faithful, next.mpr (tracked (.remove rfl (Or.inl ?_)))⟩
  decide +kernel

/-- The file was found and parsed, then it went, was looked for in vain, and came again. -/
def recreatedState : BuildState Storage :=
  let removed := suppliedFiles.erase supply.path
  let resolved := (suppliedState.workspace.dependencies suppliedFiles false 0).2
  let parsed := (resolved.tree suppliedFiles false 1).2
  let dropped := (parsed.refresh removed (suppliedFiles.absolute supply.path)).2
  let missed := (dropped.dependencies removed false 0).2
  ⟨(missed.refresh (supply.apply removed) (removed.absolute supply.path)).2, { disk := supply.apply removed }⟩

/-- A file that comes again is not heeded if there is a unit for it. -/
theorem not_faithful_recreatedState :
    History Storage.disk (fun _ => True) [mutualProject] (fun _ _ _ => True) recreatedState ∧
      ¬ recreatedState.workspace.Faithful recreatedState.world.disk := by
  constructor
  · have start : History Storage.disk (fun _ => True) [mutualProject] (fun _ _ _ => True)
        ⟨fresh [mutualProject] {}, { disk := awaitingFiles }⟩ := .start {} trivial
    have supplied := ((start.request 0 "/src/A.kn").dependencies false 0).change
      ({ disk := suppliedFiles } : Storage) supply trivial rfl trivial
    have removed := ((supplied.dependencies false 0).tree false 1).change
      ({ disk := suppliedFiles.erase supply.path } : Storage) (.remove supply.path) trivial rfl trivial
    exact (removed.dependencies false 0).change
      ({ disk := supply.apply (suppliedFiles.erase supply.path) } : Storage) supply trivial rfl trivial
  · intro faithful
    have outdated : recreatedState.workspace.isOutdated recreatedState.world.disk 0 = true := by
      decide +kernel
    rw [faithful.isOutdated_eq_false] at outdated
    cases outdated

end ScriptBuild
