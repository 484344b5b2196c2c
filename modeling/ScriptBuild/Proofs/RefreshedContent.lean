import ScriptBuild.Proofs.EvictedUnits
import ScriptBuild.Proofs.FileChanges
import ScriptBuild.Proofs.ParseJournal

/-! What a refresh compares the content of a file with. -/

namespace ScriptBuild

def Disk.digest (d : Disk) (path : Text) : Text := ((d.read path).toOption.map sha256).getD []

theorem Disk.digest_ne_nil_iff (d : Disk) (path : Text) : d.digest path ≠ [] ↔ (d.read path).isOk := by
  unfold digest
  cases d.read path with
  | error e => simp [Except.toOption, Except.isOk, Except.toBool]
  | ok content => simp [Except.toOption, Except.isOk, Except.toBool, Workspace.sha256_ne_nil]

namespace Workspace

variable {w later : Workspace} {d : Disk} {path : Text} {id : UnitId}

/-- A refresh of a path that has units changes nothing or invalidates the path. -/
theorem refresh_of_known (known : w.atPath path ≠ []) : (¬ w.IsStale d path ∧ w.refresh d path = ([], w)) ∨
      (w.IsStale d path ∧ w.refresh d path = w.invalidate path) := by
  unfold refresh
  dsimp only
  split
  · rename_i stale
    exact .inr ⟨any_fingerprint_iff_isStale.mp stale, rfl⟩
  · rename_i same
    refine .inl ⟨fun stale => same (any_fingerprint_iff_isStale.mpr stale), if_neg ?_⟩
    simp [known]

theorem mem_invalidate_of_mem_atPath (mem : id ∈ w.atPath path) : id ∈ (w.invalidate path).1 :=
  mem_sortByPath.mpr (subset_closure w id mem)

/-- Units do not come back to a path: one that is there later was there before, or is new. -/
theorem LeadsTo.mem_atPath (leads : w.LeadsTo later) (mem : id ∈ later.atPath path) :
    id ∈ w.atPath path ∨ w.unit? id = none := by
  obtain ⟨p, there⟩ := mem_atPath_iff.mp mem
  rcases leads.registry _ there with old | ⟨new, _⟩
  · exact .inl (mem_atPath_iff.mpr ⟨p, old⟩)
  · exact .inr new

end Workspace

namespace Journal

open Workspace

variable {j : Journal} {d disk : Disk} {path : Text} {id : UnitId} {u : CompilationUnit}

/-- The digest of the content that the present version of a unit was parsed from; empty if it was not
parsed. -/
def presentDigest (j : Journal) (id : UnitId) : Text :=
  (((j.workspace.unit? id).bind fun u => j.parsed.ofVersion id u.version).map (·.fingerprint)).getD []

/-- A unit was parsed in its present version, from the present content, and not since. -/
def IsUpToDate (j : Journal) (d : Disk) (path : Text) (id : UnitId) : Prop :=
  ∃ u r, j.workspace.unit? id = some u ∧ j.parsed.latest id = some r ∧ r.version = u.version ∧
    r.fingerprint = d.digest path

/-- No parse of the present version of a unit has ended. -/
def IsUnparsed (j : Journal) (id : UnitId) : Prop :=
  ∀ u, j.workspace.unit? id = some u → ∀ e ∈ j.parsed, e.1 = id → e.2.version ≠ u.version

theorem IsUnparsed.presentDigest_eq (unparsed : j.IsUnparsed id) : j.presentDigest id = [] := by
  unfold presentDigest
  cases found : j.workspace.unit? id with
  | none => rfl
  | some u => rw [Option.bind_some, ParseLog.ofVersion_eq_none (unparsed u found)]; rfl

/-- What refreshes of a path come to, by the parses that ended. -/
structure Compares (j : Journal) (d : Disk) (path : Text) : Prop where
  counted : j.workspace.parses = j.parsed.countP fun e => !e.2.fingerprint.isEmpty
  silent : j.workspace.refresh d path = ([], j.workspace) ↔
    ∀ id ∈ j.workspace.atPath path, j.presentDigest id = d.digest path
  invalidates : j.workspace.refresh d path = ([], j.workspace) ∨
    j.workspace.refresh d path = j.workspace.invalidate path
  upToDate : (∀ id ∈ j.workspace.atPath path, j.IsUpToDate d path id) → j.workspace.refresh d path = ([], j.workspace)
  unparsed : ∀ {id}, id ∈ j.workspace.atPath path → j.IsUnparsed id → (d.read path).isOk →
    id ∈ (j.workspace.refresh d path).1
  again : ∀ (actions : List WorkspaceAction) {disk : Disk}, (j.workspace.refresh d path).1 ≠ [] → disk.digest path = d.digest path →
    ((j.step (.refresh d path)).run actions).parsed = j.parsed →
    ((j.step (.refresh d path)).run actions).workspace.atPath path ≠ [] →
    ((((j.step (.refresh d path)).run actions).workspace.refresh disk path).1 ≠ [] ↔ (d.read path).isOk)

theorem precedes_run (j : Journal) (actions : List WorkspaceAction) :
    j.workspace.LeadsTo (j.run actions).workspace := by
  induction actions generalizing j with
  | nil => exact .refl _
  | cons a actions ih => exact (LeadsTo.perform j.workspace a).trans (ih (j.step a))

namespace Recalls

variable (recalls : j.Recalls)

include recalls

theorem presentDigest_eq (found : j.workspace.unit? id = some u) : j.presentDigest id = u.fingerprint := by
  rw [recalls.fingerprint_eq found, presentDigest, found, Option.bind_some]

theorem isStale_iff :
    j.workspace.IsStale d path ↔ ∃ id ∈ j.workspace.atPath path, j.presentDigest id ≠ d.digest path := by
  constructor
  · rintro ⟨id, mem, u, found, differs⟩
    exact ⟨id, mem, by rw [recalls.presentDigest_eq found]; exact differs⟩
  · rintro ⟨id, mem, differs⟩
    obtain ⟨p, there⟩ := mem_atPath_iff.mp mem
    obtain ⟨u, found⟩ := recalls.registered _ there
    exact ⟨id, mem, u, found, by rw [← recalls.presentDigest_eq found]; exact differs⟩

/-- After an invalidation of a path, and until a parse ends, the units there are unparsed: what was parsed is of
versions that are past. -/
theorem isUnparsed_run {actions : List WorkspaceAction} {first : WorkspaceAction}
    (dropped : j.workspace.perform first = (j.workspace.invalidate path).2)
    (same : ((j.step first).run actions).parsed = j.parsed)
    (mem : id ∈ ((j.step first).run actions).workspace.atPath path) :
    ((j.step first).run actions).IsUnparsed id := by
  intro v last e logged here
  rw [same] at logged
  obtain ⟨u, found, bound⟩ := recalls.past e logged
  rw [here] at found
  have after := precedes_run (j.step first) actions
  obtain ⟨x, next, _⟩ := (LeadsTo.perform j.workspace first).unit found
  have old : id ∈ (j.step first).workspace.atPath path := by
    refine (after.mem_atPath mem).resolve_right fun absent => ?_
    rw [show (j.step first).workspace.unit? id = some x from next] at absent
    cases absent
  have registry : (j.step first).workspace.registry = j.workspace.registry := by
    rw [show (j.step first).workspace = (j.workspace.invalidate path).2 from dropped, invalidate,
      registry_invalidateAll]
  have before : id ∈ j.workspace.atPath path := by
    rwa [atPath, registry] at old
  have on : (j.step first).workspace.unit? id = some u.invalidated := by
    rw [show (j.step first).workspace = (j.workspace.invalidate path).2 from dropped, invalidate,
      unit?_invalidateAll (nodup_closure _ _), found, Option.map_some, if_pos (subset_closure _ id before)]
  obtain ⟨y, there, older⟩ := after.unit on
  rw [last] at there
  rw [← Option.some.inj there] at older
  have ahead : u.version + 1 ≤ v.version := older
  omega

/-- A refresh of a path that has units is silent exactly if each of them was parsed, in its present version, from
the present content. -/
theorem refresh_eq_iff (known : j.workspace.atPath path ≠ []) : j.workspace.refresh d path = ([], j.workspace) ↔
      ∀ id ∈ j.workspace.atPath path, j.presentDigest id = d.digest path := by
  have fresh : ¬ j.workspace.IsStale d path ↔ ∀ id ∈ j.workspace.atPath path, j.presentDigest id = d.digest path := by
    rw [recalls.isStale_iff]
    push Not
    exact Iff.rfl
  rw [← fresh]
  obtain ⟨id, mem⟩ := List.exists_mem_of_ne_nil _ known
  rcases refresh_of_known known with ⟨silent, same⟩ | ⟨stale, same⟩ <;> rw [same]
  · exact iff_of_true rfl silent
  · refine iff_of_false (fun none => ?_) fun silent => silent stale
    have named := mem_invalidate_of_mem_atPath mem
    rw [none] at named
    cases named

theorem refresh_of_isUpToDate (known : j.workspace.atPath path ≠ [])
    (upToDate : ∀ id ∈ j.workspace.atPath path, j.IsUpToDate d path id) :
    j.workspace.refresh d path = ([], j.workspace) := by
  refine (recalls.refresh_eq_iff known).mpr fun id mem => ?_
  obtain ⟨u, r, found, latest, version, digest⟩ := upToDate id mem
  have present := ParseLog.ofVersion_of_latest latest
  rw [version] at present
  rw [presentDigest, found, Option.bind_some, present]
  exact digest

theorem mem_refresh_of_isUnparsed (mem : id ∈ j.workspace.atPath path) (unparsed : j.IsUnparsed id)
    (readable : (d.read path).isOk) : id ∈ (j.workspace.refresh d path).1 := by
  have stale : j.workspace.IsStale d path := recalls.isStale_iff.mpr ⟨id, mem, by
    rw [unparsed.presentDigest_eq]
    exact ((d.digest_ne_nil_iff path).mpr readable).symm⟩
  rcases refresh_of_known (List.ne_nil_of_mem mem) with ⟨silent, _⟩ | ⟨_, same⟩
  · exact absurd stale silent
  · rw [same]
    exact mem_invalidate_of_mem_atPath mem

/-- A refresh that invalidates is followed by another one that does, unless a parse ends in between or the file
cannot be read. -/
theorem refresh_again_iff (known : j.workspace.atPath path ≠ []) (actions : List WorkspaceAction)
    (first : (j.workspace.refresh d path).1 ≠ []) (content : disk.digest path = d.digest path)
    (quiet : ((j.step (.refresh d path)).run actions).parsed = j.parsed)
    (still : ((j.step (.refresh d path)).run actions).workspace.atPath path ≠ []) :
    (((j.step (.refresh d path)).run actions).workspace.refresh disk path).1 ≠ [] ↔ (d.read path).isOk := by
  have dropped : j.workspace.perform (.refresh d path) = (j.workspace.invalidate path).2 := by
    rcases refresh_of_known known with ⟨_, same⟩ | ⟨_, same⟩
    · rw [same] at first
      exact absurd rfl first
    · exact congrArg Prod.snd same
  have later : ((j.step (.refresh d path)).run actions).Recalls := (recalls.step _).run actions
  have unparsed : ∀ id ∈ ((j.step (.refresh d path)).run actions).workspace.atPath path,
      ((j.step (.refresh d path)).run actions).IsUnparsed id := fun id mem =>
    recalls.isUnparsed_run dropped quiet mem
  have readable : (disk.read path).isOk ↔ (d.read path).isOk := by
    rw [← disk.digest_ne_nil_iff, content, d.digest_ne_nil_iff]
  obtain ⟨id, mem⟩ := List.exists_mem_of_ne_nil _ still
  constructor
  · intro again
    by_contra unreadable
    have digest : disk.digest path = [] := by
      by_contra some
      exact unreadable (readable.mp ((disk.digest_ne_nil_iff path).mp some))
    refine again (congrArg Prod.fst ((later.refresh_eq_iff still).mpr fun k there => ?_))
    rw [(unparsed k there).presentDigest_eq, digest]
  · intro ok
    exact List.ne_nil_of_mem (later.mem_refresh_of_isUnparsed mem (unparsed id mem) (readable.mpr ok))

end Recalls

/-- A refresh of a path that has units compares the content with what their present versions were parsed from; units
that were dropped and not parsed since are dropped again. -/
theorem compares_run (projects : List ProjectConfig) (bodies : BodyCache) (actions : List WorkspaceAction)
    (d : Disk) (path : Text) (known : ((fresh projects bodies).run actions).workspace.atPath path ≠ []) :
    ((fresh projects bodies).run actions).Compares d path := by
  have recalls := (Recalls.fresh projects bodies).run actions
  refine ⟨recalls.counted, recalls.refresh_eq_iff known, ?_, recalls.refresh_of_isUpToDate known,
    recalls.mem_refresh_of_isUnparsed, fun more => recalls.refresh_again_iff known more⟩
  exact (refresh_of_known known).imp And.right And.right

theorem parsed_step {a : WorkspaceAction} (quiet : a.parses = false) : (j.step a).parsed = j.parsed := by
  cases a with
  | tree d canceled id | finishWaiting d => cases quiet
  | _ => rfl

theorem parsed_step_tree (none : j.workspace.due d id = []) (canceled : Bool) :
    (j.step (.tree d canceled id)).parsed = j.parsed := by
  rw [step, parsedAfter, none]
  rfl

def classFile : Disk := { entries := [("/src/A.kn", { content := "class A\nend\n" })] }

def changedFile : Disk := { entries := [("/src/A.kn", { content := "class A\n  var x\nend\n" })] }

def parsedUnit : Journal :=
  (fresh [{ name := "app", sourcePaths := ["/src"], extensions := [(".kn", .source)] }] {}).run
    [.request 0 "/src/A.kn", .tree classFile false 0]

/-- The refresh of a file that was not changed is silent; after a change, two refreshes both drop the unit if it was
not parsed in between. -/
theorem refresh_parsedUnit :
    let held : Disk := { changedFile with faults := [{ call := .hold, part := "/src/A.kn" }] }
    let dropped := (parsedUnit.step (.refresh changedFile "/src/A.kn")).step (.invalidate "/src/A.kn")
    parsedUnit.workspace.refresh classFile "/src/A.kn" = ([], parsedUnit.workspace) ∧
      (parsedUnit.workspace.refresh changedFile "/src/A.kn").1 ≠ [] ∧
      ((dropped.step (.tree held false 0)).workspace.refresh changedFile "/src/A.kn").1 ≠ [] := by
  intro held dropped
  have known : parsedUnit.workspace.atPath "/src/A.kn" ≠ [] := by decide +kernel
  have same : parsedUnit.Compares classFile "/src/A.kn" := compares_run _ _ _ _ _ known
  have changed : parsedUnit.Compares changedFile "/src/A.kn" := compares_run _ _ _ _ _ known
  have first : (parsedUnit.workspace.refresh changedFile "/src/A.kn").1 ≠ [] := by decide +kernel
  have quiet : (dropped.step (.tree held false 0)).parsed = parsedUnit.parsed := by
    rw [parsed_step_tree (by decide +kernel), parsed_step rfl, parsed_step rfl]
  have still : (dropped.step (.tree held false 0)).workspace.atPath "/src/A.kn" ≠ [] := by decide +kernel
  exact ⟨same.silent.mpr (by decide +kernel), first,
    (changed.again [.invalidate "/src/A.kn", .tree held false 0] first rfl quiet still).mpr rfl⟩

/-- The last parse read what is in the file, but it was of a version that is past; both refreshes invalidate. -/
theorem not_silent_droppedUnit :
    let dropped := parsedUnit.step (.invalidate "/src/A.kn")
    (∀ id ∈ dropped.workspace.atPath "/src/A.kn",
        (dropped.parsed.latest id).map (·.fingerprint) = some (classFile.digest "/src/A.kn")) ∧
      (dropped.workspace.refresh classFile "/src/A.kn").1 = [0] ∧
      ((dropped.workspace.refresh classFile "/src/A.kn").2.refresh classFile "/src/A.kn").1 = [0] := by
  decide +kernel

end Journal

end ScriptBuild
