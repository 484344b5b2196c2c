import Mathlib.Data.List.Induction
import ScriptBuild.Proofs.ModuleNames
import ScriptBuild.Proofs.PlanCoverage
import ScriptBuild.Workspace.Outline

/-! Names against the units that they lead to. -/

namespace ScriptBuild

open List ScriptBuild.Path Path Text ModuleName Workspace ProjectConfig Builder LinkOrder

variable {σ : Type} {b : Builder σ} {usable : σ → Prop} {projects : List ProjectConfig} {contents : Text → Prop}
  {s last : BuildState σ} {c : ProjectConfig} {path : Text} {r : BuildResult}

namespace Builder

def placeOf (b : Builder σ) (w : Workspace) (id : UnitId) : Text :=
  artifactPath b.settings.backend.subdir (w.unitName id) b.settings.backend.extension

def placeAt (b : Builder σ) (c : ProjectConfig) (path : Text) : Text :=
  artifactPath b.settings.backend.subdir (((c.describe path).map (·.name)).getD []) b.settings.backend.extension

theorem emitPath_place (b : Builder σ) (c : ProjectConfig) (world : σ) (path : Text) :
    ∀ place ∈ (b.emitPath c world path).1.artifact.map (·.2.1), place = b.placeAt c path := by
  unfold emitPath
  split
  · exact fun place absent => by cases absent
  · unfold store
    dsimp only
    split
    · intro place here
      cases here
      rfl
    · exact fun place absent => by cases absent

theorem emitPaths_places (b : Builder σ) (c : ProjectConfig) (paths : List Text) :
    ∀ world, (((b.emitPaths c world paths).1.filterMap (·.artifact)).map (·.2.1)).Sublist
      (paths.map (b.placeAt c)) := by
  induction paths with
  | nil => exact fun _ => .slnil
  | cons path paths ih =>
    intro world
    have here := b.emitPath_place c world path
    have rest := ih (b.emitPath c world path).2
    unfold emitPaths
    cases artifact : (b.emitPath c world path).1.artifact with
    | none =>
      rw [filterMap_cons_none artifact]
      exact rest.cons _
    | some written =>
      rw [artifact] at here
      rw [filterMap_cons_some artifact, map_cons, here written.2.1 rfl]
      exact rest.cons_cons _

theorem placeOf_eq (b : Builder σ) {w : Workspace} {d : Disk} {p : ProjectId} {id : UnitId}
    (valid : w.Valid projects contents d []) (config : projects[p]? = some c) (mem : w.IsMember p id) :
    b.placeOf w id = b.placeAt c (w.unitPath id) := by
  obtain ⟨u, found, own⟩ := mem
  simp [placeOf, placeAt, valid.describe config found own, unitName, found]

theorem artifacts_places (valid : s.IsValid b.diskOf usable projects contents [])
    (spares : b.Spares usable projects) (rooted : ∀ c ∈ projects, c.Rooted)
    (done : b.build s path = (.ok r, last)) :
    (r.artifacts.map (·.path)).Sublist (r.plan.emitted.map (b.placeOf last.workspace)) := by
  obtain ⟨final, covers, c, config⟩ := build_covers valid spares rooted done
  obtain ⟨depth, same⟩ := build_eq_cleanFrom valid spares rooted config done
  have written : ((r.view last.workspace).artifacts.map (·.2.1)).Sublist
      ((r.view last.workspace).emitted.map (b.placeAt c)) := by
    have view := congrArg Prod.fst (same 0)
    dsimp only at view
    rw [← view]
    exact b.emitPaths_places c _ _
  have places : r.plan.emitted.map (b.placeOf last.workspace) =
      (r.plan.emitted.map last.workspace.unitPath).map (b.placeAt c) := by
    rw [map_map]
    exact map_congr_left fun id mem =>
      b.placeOf_eq final.workspace config (covers.isMember (covers.mem_reachable mem))
  have artifacts : r.artifacts.map (·.path) = (r.artifacts.map (·.view last.workspace)).map (·.2.1) := by
    rw [map_map]
    rfl
  rw [places, artifacts]
  exact written

end Builder

namespace ProjectConfig

variable {d : Disk} {qname other : Text}

theorem exists_mem_of_locate {paths : List Text} (found : c.locate d paths = some path) :
    ∃ x ∈ paths, path = d.absolute x := by
  induction paths with
  | nil => cases found
  | cons first rest ih =>
    unfold locate at found
    split at found
    · exact ⟨first, mem_cons_self, (Option.some.inj found).symm⟩
    · obtain ⟨x, mem, same⟩ := ih found
      exact ⟨x, mem_cons_of_mem first mem, same⟩

theorem IsPlain.moduleAt_of_locate (plain : c.IsPlain) (found : c.locate d (c.candidates qname) = some path) :
    c.moduleAt path = some (of qname) := by
  obtain ⟨x, mem, rfl⟩ := exists_mem_of_locate found
  obtain ⟨root, inside, relative, there⟩ := searches_of_candidate mem
  have rooted : isAbsolute x := there ▸ isAbsolute_join (plain.roots root inside).1 relative
  rw [← moduleAt_of_mem_candidates plain mem, d.absolute_of_isAbsolute rooted, moduleAt, moduleAt,
    clean_clean rooted]

/-- Names that lead to the same module lead to the same file. -/
theorem IsPlain.locate_congr (plain : c.IsPlain) {path place : Text}
    (found : c.locate d (c.candidates qname) = some path) (there : c.locate d (c.candidates other) = some place)
    (same : c.moduleAt path = c.moduleAt place) : path = place := by
  have filled : ∀ {q x : Text}, c.locate d (c.candidates q) = some x → q ≠ [] := by
    rintro q x located rfl
    cases located
  rw [plain.moduleAt_of_locate found, plain.moduleAt_of_locate there, Option.some.injEq] at same
  rw [candidates_congr plain (filled found) (filled there) same, there] at found
  exact (Option.some.inj found).symm

end ProjectConfig

namespace Workspace

variable {w : Workspace} {d : Disk} {p : ProjectId} {id : UnitId}

section Modules

variable (valid : w.Valid projects contents d []) (config : projects[p]? = some c)

include valid config

theorem Valid.moduleAt_eq {u : CompilationUnit} (found : w.unit? id = some u) (own : u.project = p)
    (emittable : u.isEmittable) :
    c.moduleAt (w.unitPath id) = some (of (w.unitName id)) := by
  have code : u.spec.kind ≠ .resource := by
    intro resource
    simp [CompilationUnit.isEmittable, resource] at emittable
  rw [moduleAt_of_describe (valid.describe config found own) code]
  simp [unitName, found]

/-- In a plain project names lead to one unit for each module. -/
theorem Valid.eq_of_isNamed (plain : c.IsPlain) {u v : UnitId} (first : w.IsMember p u) (second : w.IsMember p v)
    (named : w.IsNamed d p u) (also : w.IsNamed d p v)
    (same : c.moduleAt (w.unitPath u) = c.moduleAt (w.unitPath v)) : u = v := by
  obtain ⟨qname, found⟩ := named
  obtain ⟨other, there⟩ := also
  rw [valid.resolve_eq_some_iff config first] at found
  rw [valid.resolve_eq_some_iff config second] at there
  exact valid.unitPath_injective first second (plain.locate_congr found there same)

theorem Covers.moduleAt_eq {plan : BuildPlan} {ds : List Diagnostic} (covers : w.Covers p plan ds)
    (mem : id ∈ plan.emitted) : c.moduleAt (w.unitPath id) = some (of (w.unitName id)) := by
  obtain ⟨u, found, own⟩ := covers.isMember (covers.mem_reachable mem)
  rw [covers.emitted] at mem
  have emittable := (mem_filter.mp mem).2
  rw [found] at emittable
  exact valid.moduleAt_eq config found own emittable

end Modules

end Workspace

def BuildResult.IsApart (r : BuildResult) (b : Builder σ) (w : Workspace) : Prop :=
  ∀ u ∈ r.plan.emitted, ∀ v ∈ r.plan.emitted, b.placeOf w u = b.placeOf w v → u = v

instance (r : BuildResult) (b : Builder σ) (w : Workspace) : Decidable (r.IsApart b w) := by
  unfold BuildResult.IsApart
  infer_instance

/-- The artifacts of a build have places of their own if and only if its emitted units are different modules. In a
plain project a unit that shares its place is the root or named as a resource. -/
theorem Session.isApart_iff (rooted : ∀ c ∈ projects, c.Rooted)
    (collisionFree : ∀ x y, contents x → contents y → sha256 x = sha256 y → x = y)
    (spares : b.Spares usable projects) (session : Session b.diskOf usable projects contents [] s)
    (done : b.build s path = (.ok r, last)) :
    ∃ c, projects[b.project]? = some c ∧
      (r.IsApart b last.workspace ↔ ∀ u ∈ r.plan.emitted, ∀ v ∈ r.plan.emitted,
        c.moduleAt (last.workspace.unitPath u) = c.moduleAt (last.workspace.unitPath v) → u = v) ∧
      (r.IsApart b last.workspace → (r.artifacts.map (·.path)).Nodup) ∧
      (c.IsPlain → ∀ u ∈ r.plan.emitted, ∀ v ∈ r.plan.emitted, u ≠ v →
        b.placeOf last.workspace u = b.placeOf last.workspace v →
        ∃ x, (x = u ∨ x = v) ∧ ¬ last.workspace.IsNamed (b.diskOf last.world) b.project x ∧
          (x = r.plan.root ∨ last.workspace.IsResourceOf (b.diskOf last.world) b.project r.plan x)) := by
  have valid := session.isValid rooted collisionFree
  obtain ⟨final, covers, c, config⟩ := build_covers valid spares rooted done
  have member : ∀ {u}, u ∈ r.plan.emitted → last.workspace.IsMember b.project u :=
    fun emitted => covers.isMember (covers.mem_reachable emitted)
  have places : ∀ u ∈ r.plan.emitted, ∀ v ∈ r.plan.emitted,
      (b.placeOf last.workspace u = b.placeOf last.workspace v ↔
        c.moduleAt (last.workspace.unitPath u) = c.moduleAt (last.workspace.unitPath v)) := by
    intro u emittedU v emittedV
    rw [placeOf, placeOf, artifactPath_eq_iff,
      covers.moduleAt_eq final.workspace config emittedU, covers.moduleAt_eq final.workspace config emittedV,
      Option.some.injEq]
  refine ⟨c, config, ?_, fun apart => ?_, fun plain u emittedU v emittedV other same => ?_⟩
  · exact forall₄_congr fun u emittedU v emittedV => by rw [places u emittedU v emittedV]
  · have distinct : (r.plan.emitted.map (b.placeOf last.workspace)).Nodup := by
      refine List.Nodup.map_on apart ?_
      rw [covers.emitted]
      exact covers.nodup.filter _
    exact (artifacts_places valid spares rooted done).nodup distinct
  · rw [places u emittedU v emittedV] at same
    have unnamed : ∀ {x}, x ∈ r.plan.emitted → ¬ last.workspace.IsNamed (b.diskOf last.world) b.project x →
        x = r.plan.root ∨ last.workspace.IsResourceOf (b.diskOf last.world) b.project r.plan x := by
      intro x emitted absent
      have reached := covers.reached_by final.workspace config (covers.mem_reachable emitted)
      exact reached.imp_right fun named => named.resolve_left absent
    by_cases named : last.workspace.IsNamed (b.diskOf last.world) b.project u
    · have absent : ¬ last.workspace.IsNamed (b.diskOf last.world) b.project v := fun also =>
        other (final.workspace.eq_of_isNamed config plain (member emittedU) (member emittedV) named also same)
      exact ⟨v, Or.inr rfl, absent, unnamed emittedV absent⟩
    · exact ⟨u, Or.inl rfl, named, unnamed emittedU named⟩

theorem isApart_importingFiles : ∃ r last,
    bucketBuilder.build (freshState mutualProject importingFiles) "/src/A.kn" = (.ok r, last) ∧
      r.plan.emitted.map last.workspace.unitPath = [("/src/B.kn" : Text), ("/src/A.kn" : Text)] ∧
      r.IsApart bucketBuilder last.workspace ∧ (r.artifacts.map (·.path)).Nodup := by
  have collisionFree : ∀ x ∈ importingFiles.entries.map (·.2.content),
      ∀ y ∈ importingFiles.entries.map (·.2.content), sha256 x = sha256 y → x = y := by
    decide +kernel
  obtain ⟨r, last, done, paths, apart⟩ : ∃ r last,
      bucketBuilder.build (freshState mutualProject importingFiles) "/src/A.kn" = (.ok r, last) ∧
        r.plan.emitted.map last.workspace.unitPath = [("/src/B.kn" : Text), ("/src/A.kn" : Text)] ∧
        r.IsApart bucketBuilder last.workspace := by
    refine exists_build_of_check ?_
    simp only [build, buildWith, buildFrom, plan, reachable, LinkOrder.traverse, visitRoots,
      visit_eq_visitBy]
    decide +kernel
  obtain ⟨_, _, _, distinct, _⟩ := Session.isApart_iff (b := bucketBuilder) rooted_mutualProject
    (fun x y inX inY => collisionFree x inX y inY) (spares_bucketBuilderWith bucketBuilder.settings _)
    (session_freshState (fun _ => rfl) fun _ held => held) done
  exact ⟨r, last, done, paths, apart, distinct apart⟩

/-- Two roots with a file of the same name in each; the second file imports the first. -/
def layeredFiles : Disk :=
  { entries :=
      [("/first", { names := some ["A.kn"] }), ("/first/A.kn", { content := "class A\nend\n" }),
        ("/second", { names := some ["A.kn"] }), ("/second/A.kn", { content := "import A\n" })] }

def layeredProject : ProjectConfig :=
  { name := "app", sourcePaths := ["/first", "/second"], extensions := [(".kn", .source)] }

theorem isPlain_layeredProject : layeredProject.IsPlain where
  roots := by
    have normal : ∀ root ∈ layeredProject.roots, isAbsolute root.1 ∧ clean root.1 = root.1 := by decide
    exact normal
  apart := by
    let start (root : Text × Bool) : Text := if root.1 == "/" then "/" else root.1 ++ "/"
    have differ : ∀ root ∈ layeredProject.roots, 2 ≤ (start root).length ∧
        ∀ other ∈ layeredProject.roots, (start root).take 2 = (start other).take 2 → root.1 = other.1 := by
      decide
    intro root inside other also path first second
    obtain ⟨x, first⟩ := Option.isSome_iff_exists.mp first
    obtain ⟨y, second⟩ := Option.isSome_iff_exists.mp second
    have same := (exists_append_of_below? first).symm.trans (exists_append_of_below? second)
    have starts := congrArg (take 2) same
    rw [take_append_of_le_length (differ root inside).1, take_append_of_le_length (differ other also).1] at starts
    exact (differ root inside).2 other also starts
  extensions := by
    have only : layeredProject.nameExtensions = [(".kn" : Text)] := by decide +kernel
    intro extension listed
    rw [only] at listed
    exact ⟨"kn", mem_singleton.mp listed, by decide, by decide, by decide⟩

/-- The root of this build is the second file, but its name leads to the first one. -/
theorem not_isApart_layeredFiles : layeredProject.IsPlain ∧ ∃ r last,
    bucketBuilder.build (freshState layeredProject layeredFiles) "/second/A.kn" = (.ok r, last) ∧
      ¬ r.IsApart bucketBuilder last.workspace := by
  refine ⟨isPlain_layeredProject, exists_build_of_check ?_⟩
  simp only [build, buildWith, buildFrom, plan, reachable, LinkOrder.traverse, visitRoots,
    visit_eq_visitBy]
  decide +kernel

/-- Whether a name consists of words with dots between them. -/
def IsQualified (qname : Text) : Prop :=
  ∃ parts : List Text, parts ≠ [] ∧ (∀ part ∈ parts, part ≠ [] ∧ ModuleName.IsWord part) ∧ qname = join "." parts

theorem replaceByte_join {a b : UInt8} {parts : List Text} (plain : ∀ part ∈ parts, a ∉ part) :
    replaceByte a b (join [a] parts) = join [b] parts := by
  induction parts with
  | nil => rfl
  | cons part parts ih =>
    obtain ⟨here, rest⟩ := forall_mem_cons.mp plain
    have same := replaceByte_of_not_mem (b := b) here
    by_cases last : parts = []
    · simpa [last, Text.join] using same
    · rw [join_cons_cons [a] part parts last, join_cons_cons [b] part parts last, ← ih rest]
      simpa [replaceByte] using same

/-- The path of a file below its root, without the extension, and its name. -/
theorem IsQualified.path_eq {qname : Text} (qualified : IsQualified qname) :
    (of qname).path = replaceByte '.' '/' qname ∧
      replaceByte '/' '.' (replaceByte '.' '/' qname) = qname := by
  obtain ⟨parts, filled, words, rfl⟩ := qualified
  have path : replaceByte '.' '/' (join "." parts) = join "/" parts :=
    replaceByte_join fun part mem => (words part mem).2.2
  refine ⟨?_, path ▸ replaceByte_join fun part mem => (words part mem).2.1⟩
  have same : ModuleName.parts (join "." parts) = parts := by
    rw [ModuleName.parts, path]
    exact split_join filled fun part mem => (words part mem).2.1
  have packages : parts.dropLast.filter (fun part => !part.isEmpty) = parts.dropLast :=
    filter_eq_self.mpr fun part mem => by simpa using (words part (dropLast_subset _ mem)).1
  have whole : parts.dropLast ++ [parts.getLastD []] = parts := by
    rw [getLastD_eq_getLast?, getLast?_eq_some_getLast filled]
    exact dropLast_append_getLast filled
  rw [ModuleName.path, ModuleName.of, same, packages, whole, path]

namespace Path

/-- What all paths below a root begin with. -/
def start (root : Text) : Text := if root == "/" then "/" else root ++ "/"

theorem start_eq_append (root : Text) : ∃ front, start root = front ++ ['/'.toUInt8] := by
  unfold start
  split
  · exact ⟨[], rfl⟩
  · exact ⟨root, rfl⟩

theorem start_injective {root other : Text} (rooted : isAbsolute root) (also : isAbsolute other)
    (same : start root = start other) : root = other := by
  have filled : ∀ {root : Text}, isAbsolute root → root ++ ("/" : Text) ≠ "/" := by
    intro root rooted same
    rw [append_left_eq_self.mp same] at rooted
    cases rooted
  unfold start at same
  split at same <;> split at same
  · rename_i first second
    rw [beq_iff_eq.mp first, beq_iff_eq.mp second]
  · exact absurd same.symm (filled also)
  · exact absurd same (filled rooted)
  · exact append_cancel_right same

/-- A path below a root ends with its extension there as well. -/
theorem exists_append_of_start {root rest front extension : Text} (plain : '/'.toUInt8 ∉ extension)
    (same : front ++ extension = start root ++ rest) : ∃ name, rest = name ++ extension := by
  rcases append_eq_append_iff.mp same with ⟨middle, whole, split⟩ | ⟨middle, _, split⟩
  · cases middle using reverseRecOn with
    | nil => exact ⟨[], by simpa using split.symm⟩
    | append_singleton middle last =>
      obtain ⟨x, ends⟩ := start_eq_append root
      rw [ends, ← append_assoc] at whole
      have slash := (append_inj' whole rfl).2
      rw [cons.injEq] at slash
      refine absurd ?_ plain
      rw [split, slash.1]
      simp
  · exact ⟨middle, split⟩

end Path

namespace ProjectConfig

variable {c : ProjectConfig} {d : Disk} {qname path : Text} {root : Text × Bool} {before : List (Text × Bool)}

/-- A project with roots in normal form, whose files of code have one extension each, and each extension one kind. -/
structure IsRegular (c : ProjectConfig) : Prop where
  roots : ∀ root ∈ c.roots, Path.IsNormal root.1
  extensions : ∀ e ∈ c.nameExtensions, ∃ word : Text, e = "." ++ word ∧ word ≠ [] ∧ ModuleName.IsWord word
  kinds : ∀ e ∈ c.nameExtensions, c.extensions.find? e ≠ some .resource

/-- The paths where a name is looked for below one root. -/
def candidatesBelow (c : ProjectConfig) (qname : Text) (root : Text × Bool) : List Text :=
  c.nameExtensions.map fun extension => join [root.1, replaceByte '.' '/' qname ++ extension]

/-- A unit that is found for a name below a root, after some roots below which there is none. -/
structure Finds (c : ProjectConfig) (d : Disk) (qname : Text) (before : List (Text × Bool)) (root : Text × Bool)
    (path : Text) : Prop where
  order : ∃ after, c.roots = before ++ root :: after
  nowhere : c.locate d (before.flatMap (c.candidatesBelow qname)) = none
  here : c.locate d (c.candidatesBelow qname root) = some path

theorem locate_append (c : ProjectConfig) (d : Disk) (paths more : List Text) :
    c.locate d (paths ++ more) = (c.locate d paths).or (c.locate d more) := by
  induction paths with
  | nil => rfl
  | cons path paths ih =>
    rw [cons_append, locate, locate, ih]
    split <;> rfl

theorem exists_finds (found : c.locate d (c.candidates qname) = some path) :
    ∃ before root, c.Finds d qname before root path := by
  have search : ∀ roots : List (Text × Bool), c.locate d (roots.flatMap (c.candidatesBelow qname)) = some path →
      ∃ before root after, roots = before ++ root :: after ∧
        c.locate d (before.flatMap (c.candidatesBelow qname)) = none ∧
        c.locate d (c.candidatesBelow qname root) = some path := by
    intro roots found
    induction roots with
    | nil => cases found
    | cons root roots ih =>
      rw [flatMap_cons, locate_append] at found
      rcases Option.or_eq_some_iff.mp found with here | ⟨absent, later⟩
      · exact ⟨[], root, roots, rfl, rfl, here⟩
      · obtain ⟨before, other, after, rfl, nowhere, here⟩ := ih later
        refine ⟨root :: before, other, after, rfl, ?_, here⟩
        rw [flatMap_cons, locate_append, absent, nowhere]
        rfl
  unfold candidates at found
  split at found
  · cases found
  · obtain ⟨before, root, after, order, nowhere, here⟩ := search c.roots found
    exact ⟨before, root, ⟨after, order⟩, nowhere, here⟩

/-- What was found below a root was not there to be found below the same root before. -/
theorem Finds.ne (finds : c.Finds d qname before root path) : ∀ other ∈ before, other.1 ≠ root.1 := by
  intro other mem same
  obtain ⟨front, back, rfl⟩ := append_of_mem mem
  have here := finds.here
  have nowhere := finds.nowhere
  rw [candidatesBelow, ← same] at here
  rw [flatMap_append, flatMap_cons, locate_append, locate_append, candidatesBelow, here] at nowhere
  cases front : c.locate d (front.flatMap (c.candidatesBelow qname)) <;> simp [front] at nowhere

theorem relative?_eq {after : List (Text × Bool)} {rest : Text} (order : c.roots = before ++ root :: after)
    (below : below? root.1 path = some rest) :
    c.relative? path =
      (before.findSome? fun other => (below? other.1 path).map (·, other.2)).or (some (rest, root.2)) := by
  rw [relative?, order, findSome?_append]
  refine congrArg (Option.or _) ?_
  rw [findSome?_cons_of_isSome]
  · exact congrArg (Option.map _) below
  · exact (congrArg (fun found => (Option.map (·, root.2) found).isSome) below)

section Names

variable (regular : c.IsRegular) (qualified : IsQualified qname) (finds : c.Finds d qname before root path)

include regular qualified finds

theorem Finds.below : ∃ word : Text, ModuleName.IsWord word ∧ c.extensions.find? ("." ++ word) ≠ some .resource ∧
    clean path = path ∧
    below? root.1 path = some (replaceByte '.' '/' qname ++ ("." ++ word)) := by
  obtain ⟨after, order⟩ := finds.order
  have normal := regular.roots root (by simp [order])
  obtain ⟨x, mem, rfl⟩ := exists_mem_of_locate finds.here
  obtain ⟨e, listed, rfl⟩ := mem_map.mp mem
  obtain ⟨word, rfl, filled, simple⟩ := regular.extensions e listed
  have rooted := isAbsolute_join normal.1 (replaceByte '.' '/' qname ++ ("." ++ word))
  refine ⟨word, simple, regular.kinds _ listed, ?_⟩
  rw [d.absolute_of_isAbsolute rooted]
  refine ⟨clean_clean rooted, ?_⟩
  have clean : clean (join [root.1, replaceByte '.' '/' qname ++ ("." ++ word)]) =
      join [root.1, replaceByte '.' '/' qname ++ ("." ++ word)] := by
    rw [join_of_isAbsolute normal.1, clean_clean (isAbsolute_append normal.1 _)]
  have relative : join "/" ((of qname).packages ++ [(of qname).name ++ ("." ++ word)]) =
      replaceByte '.' '/' qname ++ ("." ++ word) :=
    (join_append_last _ _ _ _).trans (congrArg (· ++ _) qualified.path_eq.1)
  have below := below?_of_components normal (concat_ne_nil _ _)
    (clean.trans (candidate_eq normal filled simple qname)) (by rw [relative]; simp [filled])
    (by rw [relative, ← qualified.path_eq.1]; exact startsWith_dots (dot_not_mem_path qname) simple.2)
  rwa [relative] at below

/-- The unit that was found has the name that was looked for exactly if no root before the one where it was found is
above it. -/
theorem Finds.name_eq_iff {spec : UnitSpec} (described : c.describe path = some spec) :
    (spec.name = qname ↔ ∀ other ∈ before, below? other.1 path = none) ∧
      ((∀ other ∈ before, below? other.1 path = none) → spec.isLibrary = root.2) := by
  obtain ⟨word, simple, kind, clean, below⟩ := finds.below regular qualified
  obtain ⟨relative, known, first, name⟩ := describe_eq_some described
  have whole : path = start root.1 ++ (replaceByte '.' '/' qname ++ ("." ++ word)) :=
    exists_append_of_below? below
  have dotted : ∀ front : Text, nameOf spec.kind (front ++ ("." ++ word)) = replaceByte '/' '.' front := by
    intro front
    have extension : ext path = "." ++ word := by
      rw [whole, ← append_assoc, ext_file _ simple]
    have code : (spec.kind == .resource) = false :=
      beq_false_of_ne fun same => kind (extension ▸ same ▸ known)
    rw [nameOf, code, withoutExt_file _ simple]
    rfl
  obtain ⟨after, order⟩ := finds.order
  rw [clean, relative?_eq order below] at first
  cases above : before.findSome? fun other => (below? other.1 path).map (·, other.2) with
  | none =>
    rw [above, Option.none_or, Option.some.injEq, Prod.mk.injEq] at first
    have apart : ∀ other ∈ before, below? other.1 path = none := fun other mem =>
      Option.map_eq_none_iff.mp (findSome?_eq_none_iff.mp above other mem)
    refine ⟨iff_of_true ?_ apart, fun _ => first.2.symm⟩
    rw [name, ← first.1, dotted, qualified.path_eq.2]
  | some place =>
    obtain ⟨other, mem, found⟩ := exists_of_findSome?_eq_some above
    obtain ⟨rest, inside, rfl⟩ := Option.map_eq_some_iff.mp found
    have shared : ¬∀ other ∈ before, below? other.1 path = none := fun apart => by
      simp [apart other mem] at inside
    refine ⟨iff_of_false (fun same => ?_) shared, fun apart => absurd apart shared⟩
    rw [above, Option.some_or, Option.some.injEq, Prod.mk.injEq] at first
    have split : path = start other.1 ++ rest := exists_append_of_below? inside
    have ends : (start root.1 ++ replaceByte '.' '/' qname) ++ ("." ++ word) = start other.1 ++ rest := by
      rw [append_assoc, ← whole, split]
    obtain ⟨front, rfl⟩ := exists_append_of_start
      (fun slash => (mem_append.mp slash).elim (by decide) simple.1) ends
    rw [name, ← first.1, dotted] at same
    -- Names of the same length are cut off at the same place.
    have lengths : front.length = qname.length := by
      rw [← same, replaceByte, length_map]
    have starts := (append_inj' (split.symm.trans whole) (by simp [replaceByte, lengths])).1
    have normal : ∀ place ∈ c.roots, isAbsolute place.1 := fun place listed => (regular.roots place listed).1
    exact finds.ne other mem (start_injective (normal other (by simp [order, mem]))
      (normal root (by simp [order])) starts)

end Names

end ProjectConfig

namespace Workspace

variable {w : Workspace} {p : ProjectId} {c : ProjectConfig} {qname : Text} {id : UnitId}

/-- A name leads to the unit with that name exactly if no root before the one where the unit was found is above it, and
then the unit is in a library if that root is one. -/
theorem name_resolve_iff (lifetime : Lifetime [] w) (config : w.project? p = some c) (regular : c.IsRegular)
    (qualified : IsQualified qname) (d : Disk) (found : (w.resolve d p qname).1 = some id) :
    ∃ u before root, (w.resolve d p qname).2.unit? id = some u ∧ c.Finds d qname before root u.path ∧
      (u.spec.name = qname ↔ ∀ other ∈ before, below? other.1 u.path = none) ∧
      ((∀ other ∈ before, below? other.1 u.path = none) → u.spec.isLibrary = root.2) := by
  obtain ⟨ok, agrees⟩ := lifetime.agrees (R := Eq) (fun _ => rfl) fun e member => absurd member not_mem_nil
  obtain ⟨fine, accurate⟩ :=
    (lifetime.resolve d p qname).agrees (R := Eq) (fun _ => rfl) fun e member => absurd member not_mem_nil
  have leads := firstUnit_leads (agrees.described ok.filed) config d (c.candidates qname)
  have opens := firstUnit_opens config d fun path (member : path ∈ c.candidates qname) =>
    searches_of_candidate member
  rw [← resolve_eq config] at leads opens
  rcases leads with ⟨_, absent⟩ | ⟨path, other, place, same, registered⟩
  · rw [found] at absent
    cases absent
  · rw [found, Option.some.injEq] at same
    subst same
    obtain ⟨u, unit, rfl, rfl⟩ := fine.registered registered
    obtain ⟨spec, described, rfl⟩ := accurate id u ⟨unit, registered⟩
    rw [describe_eq ((opens.grows.project? _).trans config)] at described
    obtain ⟨before, root, finds⟩ := exists_finds place
    exact ⟨u, before, root, unit, finds, finds.name_eq_iff regular qualified described⟩

/-- A project with a root and a library in its folders. -/
def nestedRoots : ProjectConfig :=
  { name := "app", sourcePaths := ["/src/app", "/src"], libraryPaths := ["/src/lib"], extensions := [(".kn", .source)] }

def nestedFiles : Disk := { entries := [("/src/q/A.kn", {}), ("/src/lib/B.kn", {})] }

theorem isRegular_nestedRoots : nestedRoots.IsRegular := by
  have only : nestedRoots.nameExtensions = [(".kn" : Text)] := by decide +kernel
  have normal : ∀ root ∈ nestedRoots.roots, isAbsolute root.1 ∧ clean root.1 = root.1 := by decide
  refine ⟨normal, fun e listed => ?_, fun e listed => ?_⟩ <;> rw [only, mem_singleton] at listed <;> subst listed
  · exact ⟨"kn", rfl, by decide, by decide, by decide⟩
  · decide

/-- The root in the folder is passed over, and the unit has the name that it has below the folder. -/
theorem name_resolve_nestedRoots : ∃ id u, ((fresh [nestedRoots] {}).resolve nestedFiles 0 "q.A").1 = some id ∧
    ((fresh [nestedRoots] {}).resolve nestedFiles 0 "q.A").2.unit? id = some u ∧ u.spec.name = "q.A" := by
  have qualified : IsQualified "q.A" := ⟨["q", "A"], by decide, forall_mem_cons.mpr
    ⟨⟨by decide, by decide, by decide⟩, forall_mem_singleton.mpr ⟨by decide, by decide, by decide⟩⟩, rfl⟩
  have found : ((fresh [nestedRoots] {}).resolve nestedFiles 0 "q.A").1 = some 0 := by decide +kernel
  obtain ⟨u, before, root, unit, finds, name, _⟩ :=
    name_resolve_iff (.start [nestedRoots] {}) rfl isRegular_nestedRoots qualified nestedFiles found
  refine ⟨0, u, found, unit, name.mpr ?_⟩
  have path : u.path = "/src/q/A.kn" := by
    have known : (((fresh [nestedRoots] {}).resolve nestedFiles 0 "q.A").2.unit? 0).map (·.path) =
        some "/src/q/A.kn" := by decide +kernel
    rw [unit] at known
    exact Option.some.inj known
  obtain ⟨after, order⟩ := finds.order
  have nowhere := finds.nowhere
  rcases before with _ | ⟨first, _ | ⟨second, before⟩⟩
  · exact fun other member => absurd member not_mem_nil
  · injection order with same
    rw [forall_mem_singleton, path, ← same]
    decide
  · injection order with _ more
    injection more with same
    have there : nestedRoots.locate nestedFiles (nestedRoots.candidatesBelow "q.A" second) ≠ none := by
      rw [← same]
      decide +kernel
    rw [flatMap_cons, flatMap_cons, locate_append, locate_append] at nowhere
    exact absurd (Option.or_eq_none_iff.mp (Option.or_eq_none_iff.mp nowhere).2).1 there

/-- The library is below a root, so that its units are named, and counted, as those of the root. -/
theorem name_resolve_ne_nestedRoots :
    ((fresh [nestedRoots] {}).resolve nestedFiles 0 "B").1 = some 0 ∧
      (((fresh [nestedRoots] {}).resolve nestedFiles 0 "B").2.unit? 0).map (·.spec) =
        some ⟨.source, "lib.B", false⟩ := by
  decide +kernel

end Workspace

end ScriptBuild
