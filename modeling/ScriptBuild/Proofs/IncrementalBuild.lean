import ScriptBuild.Proofs.BuildOutcome
import ScriptBuild.Proofs.FilePresence

/-! A build for which every rewritten file was refreshed gives what it would give in a new workspace. -/

namespace ScriptBuild

open Workspace

variable {σ : Type}

/-- The states that a workspace and the world come to, with the files that were rewritten and not refreshed yet. A
build has to wait until no file is dirty. -/
inductive Session (diskOf : σ → Disk) (usable : σ → Prop) (projects : List ProjectConfig)
    (contents : Text → Prop) : List Text → BuildState σ → Prop where
  | start {world : σ} {bodies : BodyCache} : usable world → (diskOf world).Suits projects contents →
      bodies.entries = [] →
      Session diskOf usable projects contents [] ⟨fresh projects bodies, world⟩
  | build {s : BuildState σ} (b : Builder σ) (path : Text) :
      Session diskOf usable projects contents [] s → b.diskOf = diskOf → b.Spares usable projects →
      Session diskOf usable projects contents [] (b.build s path).2
  | request {dirty : List Text} {s : BuildState σ} (p : ProjectId) (path : Text) :
      Session diskOf usable projects contents dirty s →
      Session diskOf usable projects contents dirty
        { s with workspace := (s.workspace.request p ((diskOf s.world).absolute path)).2 }
  | tree {dirty : List Text} {s : BuildState σ} (canceled : Bool) (id : UnitId) :
      Session diskOf usable projects contents dirty s →
      Session diskOf usable projects contents dirty
        { s with workspace := (s.workspace.tree (diskOf s.world) canceled id).2 }
  | dependencies {dirty : List Text} {s : BuildState σ} (canceled : Bool) (id : UnitId) :
      Session diskOf usable projects contents dirty s →
      Session diskOf usable projects contents dirty
        { s with workspace := (s.workspace.dependencies (diskOf s.world) canceled id).2 }
  | rewrite {dirty : List Text} {s : BuildState σ} {world : σ} (path : Text) :
      Session diskOf usable projects contents dirty s → usable world →
      (diskOf world).Suits projects contents →
      (diskOf s.world).SameFiles projects (· = path) (diskOf world) →
      Session diskOf usable projects contents (path :: dirty) { s with world }
  | refresh {dirty : List Text} {s : BuildState σ} (path : Text) : Session diskOf usable projects contents dirty s →
      Session diskOf usable projects contents (dirty.filter (· ≠ path))
        { s with workspace := (s.workspace.refresh (diskOf s.world) path).2 }

variable {diskOf : σ → Disk} {usable : σ → Prop} {projects : List ProjectConfig}
  {contents : Text → Prop} {dirty : List Text} {s : BuildState σ}

theorem BuildState.isValid_fresh {world : σ} {bodies : BodyCache} (fit : usable world)
    (suits : (diskOf world).Suits projects contents) (empty : bodies.entries = []) :
    BuildState.IsValid diskOf usable projects contents [] ⟨fresh projects bodies, world⟩ :=
  ⟨valid_fresh projects contents _ empty, suits, fit⟩

/-- In every session the workspace is right about all files but the dirty ones. -/
theorem Session.isValid (rooted : ∀ c ∈ projects, c.Rooted)
    (collisionFree : ∀ x y, contents x → contents y → sha256 x = sha256 y → x = y)
    (session : Session diskOf usable projects contents dirty s) :
    s.IsValid diskOf usable projects contents dirty := by
  induction session with
  | start fit suits empty => exact BuildState.isValid_fresh fit suits empty
  | build b path _ same spares ih =>
    subst same
    exact (Builder.build_spec ih spares rooted path).1
  | request p path _ ih => exact ih.withWorkspace (ih.workspace.request p path)
  | tree canceled id _ ih =>
    rw [tree_snd]
    exact ih.withWorkspace (ih.workspace.startParse ih.disk id)
  | dependencies canceled id _ ih =>
    exact ih.withWorkspace (ih.workspace.dependencies ih.disk canceled id)
  | rewrite path _ fit suits same ih =>
    refine ⟨ih.workspace.sameFiles same (fun q touched => ?_) fun q mem => ?_, suits, fit⟩
    · exact touched ▸ List.mem_cons_self
    · exact List.mem_cons_of_mem path mem
  | refresh path _ ih =>
    exact ⟨ih.workspace.refresh ih.disk collisionFree path, ih.disk, ih.world⟩

theorem Builder.spares_objects {b : Builder Storage} (target : ObjectTarget) (canceled : Bool)
    (writer : b.writer = (Output.objects target).writer canceled) (disk : b.diskOf = Storage.disk)
    (projects : List ProjectConfig) : b.Spares (fun _ => True) projects := by
  constructor <;> intros <;> rw [writer, disk] <;>
    exact ⟨trivial, fun _ => rfl, fun _ => rfl, fun _ _ => rfl, fun _ _ => .inl rfl, fun _ _ _ => rfl⟩

/-- A build in a session gives what it gives in a new workspace. -/
theorem Session.outcome_eq_fresh (rooted : ∀ c ∈ projects, c.Rooted)
    (collisionFree : ∀ x y, contents x → contents y → sha256 x = sha256 y → x = y) {b : Builder σ}
    (spares : b.Spares usable projects) (active : b.canceled = false)
    (session : Session b.diskOf usable projects contents [] s) {bodies : BodyCache}
    (empty : bodies.entries = []) (path : Text) :
    b.outcome s path = b.outcome ⟨fresh projects bodies, s.world⟩ path := by
  have valid := session.isValid rooted collisionFree
  have fresh := BuildState.isValid_fresh valid.world valid.disk empty
  obtain ⟨m, old⟩ := (Builder.build_spec valid spares rooted path).2 active
  obtain ⟨n, new⟩ := (Builder.build_spec fresh spares rooted path).2 active
  rw [old n, new m, Nat.add_comm]

def importingFiles : Disk :=
  { entries :=
      [("/src", { names := some ["A.kn", "B.kn"] }), ("/src/A.kn", { content := "import B" }),
        ("/src/B.kn", { content := "class B" })] }

/-- The same files when the first of them imports nothing any more. -/
def rewrittenFiles : Disk := importingFiles.putContent "/src/A.kn" "class A"

def bucketBuilder : Builder Storage :=
  { project := 0
    settings := { backend := .javascript, outputRoot := [], values := [] }
    writer := (Output.objects ⟨"bucket", []⟩).writer false
    diskOf := Storage.disk }

/-- The first file was parsed and resolved before it was rewritten and refreshed. -/
def rewrittenState : BuildState Storage :=
  let fresh := fresh [mutualProject] {}
  let asked := (fresh.request 0 (importingFiles.absolute "/src/A.kn")).2
  let resolved := (asked.dependencies importingFiles false 0).2
  ⟨(resolved.refresh rewrittenFiles "/src/A.kn").2, { disk := rewrittenFiles }⟩

theorem outcome_rewrittenState :
    bucketBuilder.outcome rewrittenState "/src/A.kn" =
      bucketBuilder.outcome ⟨fresh [mutualProject] {}, { disk := rewrittenFiles }⟩
        "/src/A.kn" := by
  let contents : List Text := [[], "import B", "class B", "class A"]
  have collisionFree : ∀ x ∈ contents, ∀ y ∈ contents, sha256 x = sha256 y → x = y := by
    decide +kernel
  have before : importingFiles.Suits [mutualProject] (· ∈ contents) :=
    Disk.suits_of_entries (fun _ => rfl) _ (by decide)
  have after : rewrittenFiles.Suits [mutualProject] (· ∈ contents) :=
    Disk.suits_of_entries (fun _ => rfl) _ (by decide +kernel)
  have found : importingFiles.find? "/src/A.kn" = some { content := "import B" } := rfl
  have parent : importingFiles.entries.lookup (importingFiles.parentKey (importingFiles.key "/src/A.kn")) =
      some { names := some ["A.kn", "B.kn"] } := rfl
  have shape := Disk.sameShape_putContent found rfl parent rfl "class A"
  rw [show importingFiles.key "/src/A.kn" = "/src/A.kn" by decide] at shape
  have start : Session Storage.disk (fun _ => True) [mutualProject] (· ∈ contents) []
      ⟨fresh [mutualProject] {}, { disk := importingFiles }⟩ :=
    .start trivial before rfl
  have rewritten : Session Storage.disk (fun _ => True) [mutualProject] (· ∈ contents)
      ["/src/A.kn"] ⟨_, { disk := rewrittenFiles }⟩ :=
    .rewrite "/src/A.kn" ((start.request 0 "/src/A.kn").dependencies false 0) trivial after
      (shape.sameFiles rfl _)
  exact Session.outcome_eq_fresh (b := bucketBuilder) rooted_mutualProject
    (fun x y inX inY => collisionFree x inX y inY)
    (Builder.spares_objects ⟨"bucket", []⟩ false rfl rfl _) rfl (rewritten.refresh "/src/A.kn") rfl "/src/A.kn"

end ScriptBuild
