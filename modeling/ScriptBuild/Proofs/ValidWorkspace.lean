import ScriptBuild.Proofs.FunctionLines
import ScriptBuild.Proofs.Reachable

/-! Workspaces that tell the truth about the files of their projects. -/

namespace ScriptBuild

open Option CompilationUnit

variable {later : Workspace} {ids : List UnitId} {touched : Text → Prop}

def Covered (projects : List ProjectConfig) (path : Text) : Prop :=
  ∃ c ∈ projects, (c.describe path).isSome

/-- Two attempts to read a file that come to the same, or find content both. -/
def Alike (x y : Except DiskError Text) : Prop := x = y ∨ (x.isOk ∧ y.isOk)

theorem Alike.trans {x y z : Except DiskError Text} (first : Alike x y) (second : Alike y z) : Alike x z := by
  rcases first with rfl | ⟨okX, okY⟩
  · exact second
  · rcases second with rfl | ⟨_, okZ⟩
    · exact .inr ⟨okX, okY⟩
    · exact .inr ⟨okX, okZ⟩

/-- A later disk with the same files of some projects; only at the paths that were touched the
content may be different. -/
structure Disk.SameFiles (projects : List ProjectConfig) (touched : Text → Prop) (d later : Disk) : Prop where
  absolute : ∀ q, later.absolute q = d.absolute q
  held : ∀ q, later.isHeld q = d.isHeld q
  stat : ∀ q, Covered projects (d.absolute q) → (later.stat q).isOk = (d.stat q).isOk
  alike : ∀ q, Covered projects (d.absolute q) → Alike (d.read (d.absolute q)) (later.read (d.absolute q))
  read : ∀ q, Covered projects (d.absolute q) → ¬ touched (d.absolute q) →
    later.read (d.absolute q) = d.read (d.absolute q)

/-- A disk without files that have to be waited for, whose files have some of the given contents. -/
structure Disk.Suits (projects : List ProjectConfig) (contents : Text → Prop) (d : Disk) : Prop where
  free : ∀ q, d.isHeld q = false
  contents : ∀ q content, Covered projects (d.absolute q) → d.read (d.absolute q) = .ok content → contents content

namespace Disk.SameFiles

variable {projects : List ProjectConfig} {d later : Disk} {c : ProjectConfig}

variable (same : d.SameFiles projects touched later) (mem : c ∈ projects)

include same mem

theorem locate (paths : List Text) : c.locate later paths = c.locate d paths := by
  induction paths with
  | nil => rfl
  | cons path paths ih =>
    have condition : ((later.stat path).isOk && (c.describe (d.absolute path)).isSome) =
        ((d.stat path).isOk && (c.describe (d.absolute path)).isSome) := by
      cases described : (c.describe (d.absolute path)).isSome with
      | false => simp
      | true => rw [same.stat path ⟨c, mem, described⟩]
    simp [ProjectConfig.locate, same.absolute, condition, ih]

theorem find (f : SourceFile) (ref : Reference) : c.find later f ref = c.find d f ref := by
  simp [ProjectConfig.find, same.locate mem]

/-- References lead to the same units as long as no file comes or goes. -/
theorem links (self : Text) (f : SourceFile) : c.links later self f = c.links d self f := by
  simp [ProjectConfig.links, ProjectConfig.linksFrom, same.find mem]

end Disk.SameFiles

namespace Workspace

variable {w : Workspace} {d : Disk} {p : ProjectId} {id : UnitId} {u : CompilationUnit}
  {contents : Text → Prop} {dirty : List Text}

/-- Every unit is registered at an absolute path, as what its project says it is. -/
def Placed (w : Workspace) (d : Disk) : Prop :=
  ∀ id u, w.unit? id = some u → w.lookup u.project u.path = some id ∧
    w.describe u.project u.path = some u.spec ∧ ∃ q, u.path = d.absolute q

/-- Every tree is the parse of its file, which has not changed since unless it is dirty. -/
def Reads (contents : Text → Prop) (d : Disk) (dirty : List Text) (w : Workspace) : Prop :=
  ∀ id u r, w.unit? id = some u → u.cell = .finished r → ∃ past : Disk,
    r = (parseUnit past u u.version).1 ∧ Alike (past.read u.path) (d.read u.path) ∧
      (u.path ∉ dirty → past.read u.path = d.read u.path) ∧
      ∀ content, past.read u.path = .ok content → contents content

/-- Bodies are kept for versions that there were; those of the current ones agree with the trees. -/
def BodiesAgree (w : Workspace) : Prop :=
  ∀ e ∈ w.bodies.entries, ∃ u, w.unit? e.1.unit = some u ∧ e.1.version ≤ u.version ∧
    (e.1.version = u.version → ∃ r, u.cell = .finished r ∧ BodyCache.Agrees r.file e)

/-- A workspace that is right about the files of its projects, apart from the dirty ones. -/
structure Valid (projects : List ProjectConfig) (contents : Text → Prop) (d : Disk)
    (dirty : List Text) (w : Workspace) : Prop where
  wellFormed : w.WellFormed
  described : w.Described
  ready : w.Ready
  projects : w.projects = projects
  placed : w.Placed d
  linked : w.AllLinked d
  reads : w.Reads contents d dirty
  bodies : w.BodiesAgree

theorem valid_fresh (projects : List ProjectConfig) (contents : Text → Prop) (d : Disk) {bodies : BodyCache}
    (empty : bodies.entries = []) : (fresh projects bodies).Valid projects contents d [] := by
  have none : ∀ id, (fresh projects bodies).unit? id = none := fun _ => rfl
  refine ⟨wellFormed_fresh projects bodies, described_fresh projects bodies, ?_, rfl, ?_, ?_, ?_, ?_⟩
  · intro id u found
    rw [none] at found
    cases found
  · intro id u found
    rw [none] at found
    cases found
  · rintro id u ⟨found, _⟩
    rw [none] at found
    cases found
  · intro id u r found
    rw [none] at found
    cases found
  · intro e mem
    change e ∈ bodies.entries at mem
    rw [empty] at mem
    cases mem

theorem Placed.covered (placed : w.Placed d) (ok : w.WellFormed) (found : w.unit? id = some u) :
    Covered w.projects u.path := by
  obtain ⟨c, config⟩ := ok.project found
  refine ⟨c, List.mem_of_getElem? config, ?_⟩
  rw [← describe_eq config, (placed id u found).2.1]
  rfl

section Growth

theorem BodiesAgree.grows (agree : w.BodiesAgree) (grown : w.Grows later) (same : later.bodies = w.bodies) :
    later.BodiesAgree := by
  intro e mem
  rw [same] at mem
  obtain ⟨u, found, bound, current⟩ := agree e mem
  obtain ⟨v, next, kept⟩ := grown.unit found
  refine ⟨v, next, kept.version ▸ bound, fun now => ?_⟩
  obtain ⟨r, finished, agrees⟩ := current (now.trans kept.version)
  exact ⟨r, kept.tree r finished, agrees⟩

theorem Placed.stays (placed : w.Placed d) (stays : w.Stays later) : later.Placed d := by
  intro j v found
  obtain ⟨u, old, project, path, spec⟩ := stays.unit found
  rw [stays.lookup, describe, project?, stays.projects, ← project, ← path, ← spec]
  exact placed j u old

theorem Reads.startParse (reads : w.Reads contents d dirty) (placed : w.Placed d) (ok : w.WellFormed)
    (suits : d.Suits w.projects contents) (id : UnitId) : (w.startParse d id).Reads contents d dirty := by
  intro j v r found finished
  rw [unit?_startParse] at found
  obtain ⟨u, old, new⟩ := map_eq_some_iff.mp found
  split at new
  · subst new
    cases cell : u.cell with
    | idle =>
      have kept := u.keeps_parsed d
      have tree : r = (parseUnit d u u.version).1 := by
        simp only [parsed, cell, suits.free] at finished
        injection finished with same
        exact same.symm
      obtain ⟨_, _, q, absolute⟩ := placed j u old
      refine ⟨d, ?_, .inl rfl, fun _ => rfl, fun content read => ?_⟩
      · rw [kept.version, tree]
        simp [parseUnit, kept.path, kept.spec]
      · rw [kept.path, absolute] at read
        exact suits.contents q content (absolute ▸ placed.covered ok old) read
    | started | finished r' =>
      have same : u.parsed d = u := by simp [parsed, cell]
      rw [same] at finished ⊢
      exact reads j u r old finished
  · subst new
    exact reads j u r old finished

theorem Reads.setDependencies (reads : w.Reads contents d dirty) (found : w.unit? id = some u)
    (ds : List UnitId) (xs : List Diagnostic) :
    (w.setDependencies id u.version ds xs).Reads contents d dirty := by
  intro j v r unit finished
  rw [unit?_setDependencies found] at unit
  obtain ⟨x, old, new⟩ := map_eq_some_iff.mp unit
  split at new <;> subst new <;> exact reads j x r old finished

theorem Placed.request (placed : w.Placed d) (p : ProjectId) (q : Text) : (w.request p (d.absolute q)).2.Placed d := by
  intro j v found
  rw [(Grows.request w p _).describe]
  rcases of_unit?_request found with old | ⟨_, place, spec, described, new⟩
  · obtain ⟨place, described, absolute⟩ := placed j v old
    exact ⟨(Grows.request w p _).registry place, described, absolute⟩
  · subst new
    exact ⟨place, described, q, rfl⟩

theorem Reads.request (reads : w.Reads contents d dirty) (p : ProjectId) (path : Text) :
    (w.request p path).2.Reads contents d dirty := by
  intro j v r found finished
  rcases of_unit?_request found with old | ⟨_, _, _, _, new⟩
  · exact reads j v r old finished
  · subst new
    cases finished

end Growth

section Operations

variable {projects : List ProjectConfig}

section

variable (valid : w.Valid projects contents d dirty)

include valid

theorem Valid.request (p : ProjectId) (q : Text) : (w.request p (d.absolute q)).2.Valid projects contents d dirty :=
  ⟨valid.wellFormed.request p _, valid.described.request p _, valid.ready.request p _,
    (Grows.request w p _).projects.trans valid.projects, valid.placed.request p q,
    valid.linked.request valid.wellFormed p _, valid.reads.request p _,
    valid.bodies.grows (.request w p _) (by simp)⟩

theorem Valid.startParse (suits : d.Suits projects contents) (id : UnitId) :
    (w.startParse d id).Valid projects contents d dirty :=
  ⟨valid.wellFormed.startParse d id, valid.described.startParse d id,
    valid.ready.startParse suits.free id, by simp [valid.projects], valid.placed.stays (.startParse w d id),
    valid.linked.startParse valid.wellFormed d id,
    valid.reads.startParse valid.placed valid.wellFormed (valid.projects ▸ suits) id,
    valid.bodies.grows (.startParse w d id) (by simp)⟩

theorem Valid.dependencies (suits : d.Suits projects contents) (canceled : Bool) (id : UnitId) :
    (w.dependencies d canceled id).2.Valid projects contents d dirty := by
  refine dependencies_preserves (motive := fun x => x.Valid projects contents d dirty) valid.wellFormed valid.described
    valid (valid.startParse suits id) (fun _ _ _ later => later.request _ _) (fun found done later => ?_) canceled
  exact ⟨done.wellFormed, done.described, later.ready.setDependencies done.unit _ _,
    (projects_setDependencies _ _ _ _ _).trans later.projects, later.placed.stays (.setDependencies done.unit _ _),
    done.allLinked valid.wellFormed valid.described found later.linked, later.reads.setDependencies done.unit _ _,
    later.bodies.grows (.setDependencies done.unit done.pending _ _) (bodies_setDependencies _ _ _ _ _)⟩

end

/-- Nothing that is kept is for a version that is still to come. -/
theorem BodiesAgree.invalidateAll (agree : w.BodiesAgree) (unique : ids.Nodup) : (w.invalidateAll ids).BodiesAgree := by
  intro e mem
  rw [bodies_invalidateAll] at mem
  obtain ⟨u, found, bound, current⟩ := agree e mem
  rw [unit?_invalidateAll unique, found]
  by_cases reached : e.1.unit ∈ ids
  · refine ⟨u.invalidated, by simp [reached], Nat.le_succ_of_le bound, fun now => ?_⟩
    exact absurd bound (by rw [now]; exact Nat.not_succ_le_self u.version)
  · exact ⟨u, by simp [reached], bound, current⟩

theorem Valid.invalidateAll (valid : w.Valid projects contents d dirty) (unique : ids.Nodup) :
    (w.invalidateAll ids).Valid projects contents d dirty := by
  refine ⟨valid.wellFormed.invalidateAll ids, valid.described.invalidateAll ids, ?_,
    by simp [valid.projects], valid.placed.stays ((Ages.invalidateAll w ids).stays (by simp)),
    valid.linked.invalidateAll valid.wellFormed unique, ?_, valid.bodies.invalidateAll unique⟩
  · intro j v found started
    rw [unit?_invalidateAll unique] at found
    obtain ⟨u, old, new⟩ := map_eq_some_iff.mp found
    split at new
    · subst new
      cases started
    · exact valid.ready j u old (new ▸ started)
  · intro j v r found finished
    rw [unit?_invalidateAll unique] at found
    obtain ⟨u, old, new⟩ := map_eq_some_iff.mp found
    split at new
    · subst new
      cases finished
    · subst new
      exact valid.reads j u r old finished

/-- What is recorded holds as long as no file comes or goes. -/
theorem AllLinked.sameFiles {later : Disk} (linked : w.AllLinked d)
    (same : d.SameFiles w.projects touched later) : w.AllLinked later := by
  intro id u registered current r c tree config
  rw [same.links (List.mem_of_getElem? config)]
  exact linked id u registered current r c tree config

/-- A change of files leaves a workspace valid apart from those that it touches. -/
theorem Valid.sameFiles {later : Disk} {dirty' : List Text} (valid : w.Valid projects contents d dirty)
    (same : d.SameFiles projects touched later) (known : ∀ q, touched q → q ∈ dirty')
    (more : ∀ q ∈ dirty, q ∈ dirty') : w.Valid projects contents later dirty' := by
  refine ⟨valid.wellFormed, valid.described, valid.ready, valid.projects, ?_,
    valid.linked.sameFiles (valid.projects ▸ same), ?_, valid.bodies⟩
  · intro id u found
    obtain ⟨place, described, q, absolute⟩ := valid.placed id u found
    exact ⟨place, described, q, absolute.trans (same.absolute q).symm⟩
  · intro id u r found finished
    obtain ⟨past, tree, alike, clean, inside⟩ := valid.reads id u r found finished
    have covered := valid.placed.covered valid.wellFormed found
    obtain ⟨_, _, q, absolute⟩ := valid.placed id u found
    rw [valid.projects, absolute] at covered
    refine ⟨past, tree, ?_, fun outside => ?_, inside⟩
    · rw [absolute] at alike ⊢
      exact alike.trans (same.alike q covered)
    · have kept := same.read q covered fun hit => outside (absolute ▸ known _ hit)
      rw [clean fun mem => outside (more _ mem), absolute, kept]

/-- The digest of a finished unit tells what its file held when it was parsed. -/
theorem read_eq_of_fingerprint {past : Disk} {r : SyntaxResult}
    (collisionFree : ∀ x y, contents x → contents y → sha256 x = sha256 y → x = y)
    (finished : u.cell = .finished r) (tree : r = (parseUnit past u u.version).1)
    (alike : Alike (past.read u.path) (d.read u.path))
    (before : ∀ content, past.read u.path = .ok content → contents content)
    (now : ∀ content, d.read u.path = .ok content → contents content)
    (same : u.fingerprint = ((d.read u.path).toOption.map sha256).getD []) :
    past.read u.path = d.read u.path := by
  rcases alike with equal | ⟨okPast, okNow⟩
  · exact equal
  · cases first : past.read u.path with
    | error e => rw [first] at okPast; cases okPast
    | ok old =>
      cases second : d.read u.path with
      | error e => rw [second] at okNow; cases okNow
      | ok new =>
        have digest : u.fingerprint = sha256 old := by
          simp [fingerprint, finished, tree, parseUnit, first]
        have equal : sha256 old = sha256 new := by
          rw [← digest, same, second]
          rfl
        rw [collisionFree old new (before old first) (now new second) equal]

/-- Units that a refresh of their path leaves alone were parsed from the content that is there. -/
theorem fingerprint_of_not_mem_refreshed (found : w.unit? id = some u)
    (place : w.lookup u.project u.path = some id) (kept : id ∉ w.refreshed d u.path) :
    u.fingerprint = ((d.read u.path).toOption.map sha256).getD [] := by
  have here : id ∈ w.atPath u.path := mem_atPath_iff.mpr ⟨_, mem_of_lookup place⟩
  by_contra differs
  refine kept ?_
  have stale : ((w.atPath u.path).any fun j => (w.unit? j).any fun v =>
      v.fingerprint != ((d.read u.path).toOption.map sha256).getD []) = true :=
    List.any_eq_true.mpr ⟨id, here, by simp [found, differs]⟩
  unfold refreshed
  dsimp only
  rw [if_pos stale]
  exact w.subset_closure id here

/-- A refresh makes up for a change of the content of a file. -/
theorem Valid.refresh (valid : w.Valid projects contents d dirty) (suits : d.Suits projects contents)
    (collisionFree : ∀ x y, contents x → contents y → sha256 x = sha256 y → x = y) (path : Text) :
    (w.refresh d path).2.Valid projects contents d (dirty.filter (· ≠ path)) := by
  have unique := w.nodup_refreshed d path
  rw [refresh_eq]
  refine { valid.invalidateAll unique with reads := fun j v r found finished => ?_ }
  obtain ⟨past, tree, alike, clean, inside⟩ := (valid.invalidateAll unique).reads j v r found finished
  refine ⟨past, tree, alike, fun outside => ?_, inside⟩
  by_cases here : v.path = path
  · subst here
    have kept : j ∉ w.refreshed d v.path := by
      intro dropped
      rw [unit?_invalidateAll unique] at found
      obtain ⟨u, _, new⟩ := map_eq_some_iff.mp found
      rw [if_pos dropped] at new
      subst new
      cases finished
    rw [unit?_invalidateAll_of_not_mem unique kept] at found
    obtain ⟨place, _, q, absolute⟩ := valid.placed j v found
    have covered := valid.projects ▸ valid.placed.covered valid.wellFormed found
    refine read_eq_of_fingerprint collisionFree finished tree alike inside (fun content read => ?_)
      (fingerprint_of_not_mem_refreshed found place kept)
    rw [absolute] at covered read
    exact suits.contents q content covered read
  · exact clean fun mem => outside (List.mem_filter.mpr ⟨mem, by simpa using here⟩)

end Operations

end Workspace

end ScriptBuild
