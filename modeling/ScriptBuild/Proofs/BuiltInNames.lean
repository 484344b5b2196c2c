import ScriptBuild.Proofs.EmissionParts
import ScriptBuild.Proofs.ModuleNames
import ScriptBuild.Proofs.PlanCoverage

/-! Built-in names in dependencies and in emitted files. -/

namespace ScriptBuild

open List Text TypeScript Builder

open LinkOrder

theorem Text.mem_foldl_addNew (xs : List Text) {x : Text} :
    ∀ seen : List Text, x ∈ xs.foldl addNew seen ↔ x ∈ seen ∨ x ∈ xs := by
  induction xs with
  | nil => simp
  | cons y xs ih =>
    intro seen
    have step : x ∈ addNew seen y ↔ x ∈ seen ∨ x = y := by
      unfold addNew
      split
      · rename_i known
        have mem : y ∈ seen := by simpa using known
        exact ⟨.inl, fun found => found.elim id fun same => same ▸ mem⟩
      · simp
    rw [foldl_cons, ih, step, mem_cons, or_assoc]

/-- Whether a name is what a reference of a file stands for, resources apart. -/
def EmitContext.RefersTo (e : EmitContext) (q : Text) : Prop :=
  ∃ ref ∈ e.file.references, ref.kind ≠ .resource ∧ e.qualify ref.name = q

/-- A file requires what its references stand for, if that is in a package and not in the file itself. -/
theorem JavaScript.mem_requires {e : EmitContext} {provided : List Text} {q : Text} :
    q ∈ requires e provided ↔ e.RefersTo q ∧ q.contains '.' ∧ q ∉ provided := by
  simp [requires, mem_sort, mem_foldl_addNew, EmitContext.RefersTo, and_assoc]

def Package.ownNames (p : Package) : List Text := (p.decls.map Decl.name).filter fun name => !name.isEmpty

/-- Whether a module imports something for a name that is written in it. -/
structure TypeScript.Imports (p : Package) (name : Text) : Prop where
  filled : name ≠ []
  foreign : name ∉ p.ownNames
  plain : primitives.find? name = none

/-- Whether a name is written in a module as a reference, resources apart, or as a type of a signature. -/
def TypeScript.Mentions (e : EmitContext) (p : Package) (name : Text) : Prop :=
  (∃ ref ∈ e.file.references, ref.kind ≠ .resource ∧ ref.name = name) ∨ name ∈ p.decls.flatMap signatureTypes

/-- A module imports what the names that it mentions stand for, if that is in a package and not in the module
itself. -/
theorem TypeScript.mem_imports {e : EmitContext} {p : Package} {q : Text} :
    q ∈ imports e p ↔ (∃ name, Mentions e p name ∧ Imports p name ∧ e.qualify name = q) ∧
      q.contains '.' ∧ q ∉ p.ownNames := by
  have kept : ∀ name : Text, (!name.isEmpty && !p.ownNames.contains name && (primitives.find? name).isNone) = true ↔
      Imports p name := by
    intro name
    simp only [Bool.and_eq_true, Bool.not_eq_true', isEmpty_eq_false_iff, contains_eq_mem,
      decide_eq_false_iff_not, Option.isNone_iff_eq_none]
    exact ⟨fun ⟨⟨filled, foreign⟩, plain⟩ => ⟨filled, foreign, plain⟩, fun h => ⟨⟨h.filled, h.foreign⟩, h.plain⟩⟩
  have unfolded : imports e p = sort
      (((((e.file.references.filter fun r => r.kind != .resource).map (·.name) ++ p.decls.flatMap signatureTypes).filter
        fun name => !name.isEmpty && !p.ownNames.contains name && (primitives.find? name).isNone).map e.qualify).filter
        (fun q => q.contains '.' && !p.ownNames.contains q) |>.foldl addNew []) := rfl
  rw [unfolded, mem_sort, mem_foldl_addNew]
  simp only [not_mem_nil, false_or, mem_filter, mem_map, mem_append, kept, bne_iff_ne, Mentions]
  simp [and_assoc]

/-- A context in which a builder emits a file with the names of a workspace. -/
structure Builder.Emits {σ : Type} (b : Builder σ) (w : Workspace) (f : SourceFile) (e : EmitContext) : Prop where
  settings : e.settings = b.settings
  file : e.file = f
  qualify : e.qualify = qualify w b.project f

def Builder.context {σ : Type} (b : Builder σ) (w : Workspace) (f : SourceFile) : EmitContext :=
  ⟨b.settings, f, none, qualify w b.project f, []⟩

/-- What is printed for a path is its file, emitted in such a context. -/
theorem Builder.exists_emits_of_print {σ : Type} {b : Builder σ} {w : Workspace} {c : ProjectConfig} {d : Disk}
    {path text : Text} (config : w.project? b.project = some c) (printed : (b.print c d path).1 = some text) :
    ∃ e, b.Emits w (c.source d path).1 e ∧ text = (emitFile e).text := by
  unfold print at printed
  dsimp only at printed
  split at printed
  · cases printed
  · split at printed
    · cases printed
    · rw [← qualify_eq config] at printed
      exact ⟨_, ⟨rfl, rfl, rfl⟩, (Option.some.inj printed).symm⟩

section Builds

variable {σ : Type} {b : Builder σ} {usable : σ → Prop} {projects : List ProjectConfig} {contents : Text → Prop}
  {s last : BuildState σ} {path : Text} {r : BuildResult}

section Planned

variable {w : Workspace} {d : Disk} {c : ProjectConfig} {plan : BuildPlan} {ds : List Diagnostic} {id : UnitId}
  {u : CompilationUnit} {tree : SyntaxResult}

/-- A planned unit has a tree, and what is printed for it is that tree, emitted with the names of the workspace. -/
theorem Workspace.Covers.exists_printed (covers : w.Covers b.project plan ds)
    (valid : w.Valid projects contents d []) (config : projects[b.project]? = some c)
    (mem : id ∈ plan.reachable) :
    ∃ u tree, w.HasTree id u tree ∧ ∀ text, (b.print c d (w.unitPath id)).1 = some text →
      ∃ e, b.Emits w tree.file e ∧ text = (emitFile e).text := by
  obtain ⟨u, tree, has, _⟩ := covers.exists_hasTree valid.wellFormed mem
  refine ⟨u, tree, has, fun text printed => ?_⟩
  obtain ⟨e, emits, same⟩ := exists_emits_of_print (valid.project?_eq config) printed
  rw [← valid.source config (covers.isMember mem) has] at emits
  exact ⟨e, emits, same⟩

end Planned

/-- What JavaScript requires for a reference that the project can qualify is the unit itself or planned before it,
unless the build reports the edge between them as dropped. -/
theorem Session.requires_planned (rooted : ∀ c ∈ projects, c.Rooted)
    (collisionFree : ∀ x y, contents x → contents y → sha256 x = sha256 y → x = y)
    (spares : b.Spares usable projects) (session : Session b.diskOf usable projects contents [] s)
    (backend : b.settings.backend = .javascript) (done : b.build s path = (.ok r, last)) :
    ∃ c, projects[b.project]? = some c ∧ ∀ id ∈ r.plan.emitted, ∃ u tree, last.workspace.HasTree id u tree ∧
      (∀ text, (b.print c (b.diskOf last.world) (last.workspace.unitPath id)).1 = some text →
        ∃ e, b.Emits last.workspace tree.file e ∧ text = (emitFile e).text) ∧
      ∀ e p, b.Emits last.workspace tree.file e → tree.file.package = some p →
        Text.unlines (JavaScript.head e p) <+: (emitFile e).text ∧
        (∀ q, q ∈ JavaScript.requires e (JavaScript.provides p) ↔
          e.RefersTo q ∧ q.contains '.' ∧ q ∉ JavaScript.provides p) ∧
        ∀ q ∈ JavaScript.requires e (JavaScript.provides p),
          ∀ ref ∈ tree.file.references, ref.kind ≠ .resource → c.qualifiedName tree.file ref.name = q →
            ∀ target, (last.workspace.resolve (b.diskOf last.world) b.project q).1 = some target →
              target = id ∨ target ∈ r.plan.reachable ∧ (Precedes r.plan.reachable target id ∨
                last.workspace.cycleWarning id target ∈ r.diagnostics) := by
  have valid := session.isValid rooted collisionFree
  obtain ⟨final, covers, c, config⟩ := build_covers valid spares rooted done
  refine ⟨c, config, fun id emitted => ?_⟩
  have planned := covers.mem_reachable emitted
  obtain ⟨u, tree, has, printed⟩ := covers.exists_printed final.workspace config planned
  refine ⟨u, tree, has, printed, fun e p emits package => ⟨?_, fun _ => JavaScript.mem_requires, ?_⟩⟩
  · rw [emitFile, emits.settings, backend]
    exact JavaScript.head_prefix e (emits.file ▸ package)
  · intro q _ ref inside named same target found
    exact covers.resolved final.workspace config planned has inside ((if_neg named).trans (same ▸ found))

/-- What TypeScript imports for a reference that the project can qualify is planned by the same build; what it imports
for a type is planned if and only if it is the root or some planned file refers to it. -/
theorem Session.imports_planned (rooted : ∀ c ∈ projects, c.Rooted)
    (collisionFree : ∀ x y, contents x → contents y → sha256 x = sha256 y → x = y)
    (spares : b.Spares usable projects) (session : Session b.diskOf usable projects contents [] s)
    (backend : b.settings.backend = .typescript) (done : b.build s path = (.ok r, last)) :
    ∃ c, projects[b.project]? = some c ∧ ∀ id ∈ r.plan.emitted, ∃ u tree, last.workspace.HasTree id u tree ∧
      (∀ text, (b.print c (b.diskOf last.world) (last.workspace.unitPath id)).1 = some text →
        ∃ e, b.Emits last.workspace tree.file e ∧ text = (emitFile e).text) ∧
      ∀ e p, b.Emits last.workspace tree.file e → tree.file.package = some p →
        Text.unlines (head e p) <+: (emitFile e).text ∧
        (∀ q, q ∈ imports e p ↔
          (∃ name, TypeScript.Mentions e p name ∧ TypeScript.Imports p name ∧ e.qualify name = q) ∧
            q.contains '.' ∧ q ∉ p.ownNames) ∧
        ∀ q ∈ imports e p,
          ∀ target, (last.workspace.resolve (b.diskOf last.world) b.project q).1 = some target →
            ((∃ ref ∈ tree.file.references, ref.kind ≠ .resource ∧ c.qualifiedName tree.file ref.name = q) →
              target ∈ r.plan.reachable) ∧
            (target ∈ r.plan.reachable ↔ target = r.plan.root ∨
              last.workspace.IsReferred (b.diskOf last.world) b.project c r.plan target) := by
  have valid := session.isValid rooted collisionFree
  obtain ⟨final, covers, c, config⟩ := build_covers valid spares rooted done
  refine ⟨c, config, fun id emitted => ?_⟩
  have planned := covers.mem_reachable emitted
  obtain ⟨u, tree, has, printed⟩ := covers.exists_printed final.workspace config planned
  refine ⟨u, tree, has, printed, fun e p emits package =>
    ⟨?_, fun _ => mem_imports, fun q _ target found => ⟨?_, covers.mem_reachable_iff final.workspace config⟩⟩⟩
  · rw [emitFile, emits.settings, backend]
    exact head_prefix e (emits.file ▸ package)
  · rintro ⟨ref, inside, named, rfl⟩
    exact (covers.mem_reachable_iff final.workspace config).mpr
      (Or.inr ⟨id, u, tree, ref, planned, has, inside, (if_neg named).trans found⟩)

end Builds

section Example

def companionFiles : Disk :=
  { entries :=
      [("/src/p/A.kn", { content := "package p\nclass A extends B\n  var c: C\nend\n" }),
        ("/src/p/B.kn", { content := "package p\nclass B\nend\n" }),
        ("/src/p/C.kn", { content := "package p\nclass C\nend\n" })] }

def defaultBuilder (backend : Backend) : Builder Storage :=
  bucketBuilderWith { backend, outputRoot := "/out", values := backend.defaults }

set_option synthInstance.maxSize 1000 in
/-- What a build of the first file finds there. -/
theorem exists_companionBuild (backend : Backend) : ∃ r last u tree p ref,
    (defaultBuilder backend).build (freshState Workspace.mutualProject companionFiles) "/src/p/A.kn" = (.ok r, last) ∧
      last.workspace.HasTree 0 u tree ∧ tree.file.package = some p ∧ ref ∈ tree.file.references ∧
      (0 ∈ r.plan.emitted ∧ r.plan.reachable = [1, 0]) ∧ (ref.kind ≠ .resource ∧ ref.name = ("B" : Text)) ∧
      ((last.workspace.resolve last.world.disk 0 "p.B").1 = some 1 ∧
        (last.workspace.resolve last.world.disk 0 "p.C").1 = some 2) ∧
      (Workspace.mutualProject.qualifiedName tree.file "B" = ("p.B" : Text) ∧
        qualify last.workspace 0 tree.file "B" = ("p.B" : Text) ∧
        qualify last.workspace 0 tree.file "C" = ("p.C" : Text)) ∧
      p.ownNames = [("A" : Text)] ∧ JavaScript.provides p = [("p.A" : Text)] ∧
        ("C" : Text) ∈ p.decls.flatMap signatureTypes := by
  refine exists_tree_of_check 0 ?_
  simp only [build, buildWith, buildFrom, Workspace.plan, Workspace.reachable, LinkOrder.traverse, visitRoots, visit_eq_visitBy]
  cases backend <;> decide +kernel

theorem sha256_companionFiles : ∀ x ∈ companionFiles.entries.map (·.2.content),
    ∀ y ∈ companionFiles.entries.map (·.2.content), sha256 x = sha256 y → x = y := by
  decide +kernel

theorem requires_planned_companionFiles : ∃ r last id u tree e p target,
    (defaultBuilder .javascript).build (freshState Workspace.mutualProject companionFiles) "/src/p/A.kn" =
      (.ok r, last) ∧
    id ∈ r.plan.emitted ∧ last.workspace.HasTree id u tree ∧ tree.file.package = some p ∧
    (defaultBuilder .javascript).Emits last.workspace tree.file e ∧
    ("p.B" : Text) ∈ JavaScript.requires e (JavaScript.provides p) ∧
    (last.workspace.resolve last.world.disk 0 "p.B").1 = some target ∧ target ≠ id ∧
    target ∈ r.plan.reachable ∧ (Precedes r.plan.reachable target id ∨
      last.workspace.cycleWarning id target ∈ r.diagnostics) := by
  obtain ⟨r, last, u, tree, p, ref, done, has, package, inside, ⟨emitted, _⟩, ⟨named, name⟩, ⟨found, _⟩,
    ⟨leads, qualified, _⟩, ⟨_, provides, _⟩⟩ := exists_companionBuild .javascript
  obtain ⟨c, config, planned⟩ := Session.requires_planned (b := defaultBuilder .javascript)
    Workspace.rooted_mutualProject (fun x y inX inY => sha256_companionFiles x inX y inY)
    (spares_bucketBuilderWith _ _) (session_freshState (fun _ => rfl) fun _ held => held) rfl done
  obtain rfl : Workspace.mutualProject = c := Option.some.inj config
  obtain ⟨_, parsed, own, _, required⟩ := planned 0 emitted
  obtain rfl : tree = parsed := Option.some.inj (has.tree?_eq.symm.trans own.tree?_eq)
  let e := (defaultBuilder .javascript).context last.workspace tree.file
  have member : ("p.B" : Text) ∈ JavaScript.requires e (JavaScript.provides p) := by
    refine JavaScript.mem_requires.mpr ⟨⟨ref, inside, named, name ▸ qualified⟩, by decide, ?_⟩
    rw [provides]
    decide
  have order := ((required e p ⟨rfl, rfl, rfl⟩ package).2.2 _ member ref inside named (name ▸ leads) 1
    found).resolve_left (by decide)
  exact ⟨r, last, 0, u, tree, e, p, 1, done, emitted, has, package, ⟨rfl, rfl, rfl⟩, member, found, by decide, order⟩

theorem imports_planned_companionFiles : ∃ r last id u tree e p target,
    (defaultBuilder .typescript).build (freshState Workspace.mutualProject companionFiles) "/src/p/A.kn" =
      (.ok r, last) ∧
    id ∈ r.plan.emitted ∧ last.workspace.HasTree id u tree ∧ tree.file.package = some p ∧
    (defaultBuilder .typescript).Emits last.workspace tree.file e ∧
    ("p.B" : Text) ∈ imports e p ∧
    (last.workspace.resolve last.world.disk 0 "p.B").1 = some target ∧ target ∈ r.plan.reachable := by
  obtain ⟨r, last, u, tree, p, ref, done, has, package, inside, ⟨emitted, _⟩, ⟨named, name⟩, ⟨found, _⟩,
    ⟨leads, qualified, _⟩, ⟨own, _⟩⟩ := exists_companionBuild .typescript
  obtain ⟨c, config, planned⟩ := Session.imports_planned (b := defaultBuilder .typescript)
    Workspace.rooted_mutualProject (fun x y inX inY => sha256_companionFiles x inX y inY)
    (spares_bucketBuilderWith _ _) (session_freshState (fun _ => rfl) fun _ held => held) rfl done
  obtain rfl : Workspace.mutualProject = c := Option.some.inj config
  obtain ⟨_, parsed, also, _, imported⟩ := planned 0 emitted
  obtain rfl : tree = parsed := Option.some.inj (has.tree?_eq.symm.trans also.tree?_eq)
  let e := (defaultBuilder .typescript).context last.workspace tree.file
  have member : ("p.B" : Text) ∈ imports e p := by
    refine mem_imports.mpr ⟨⟨"B", .inl ⟨ref, inside, named, name⟩, ⟨by decide, ?_, by decide⟩, qualified⟩,
      by decide, ?_⟩ <;> rw [own] <;> decide
  have planned := ((imported e p ⟨rfl, rfl, rfl⟩ package).2.2 _ member 1 found).1 ⟨ref, inside, named, name ▸ leads⟩
  exact ⟨r, last, 0, u, tree, e, p, 1, done, emitted, has, package, ⟨rfl, rfl, rfl⟩, member, found, planned⟩

/-- The module that is emitted for the first file imports the type of its field, which is not planned. -/
theorem not_imports_planned_companionFiles : ∃ r last id u tree e p target,
    (defaultBuilder .typescript).build (freshState Workspace.mutualProject companionFiles) "/src/p/A.kn" =
      (.ok r, last) ∧
    id ∈ r.plan.emitted ∧ last.workspace.HasTree id u tree ∧ tree.file.package = some p ∧
    (defaultBuilder .typescript).Emits last.workspace tree.file e ∧
    ("p.C" : Text) ∈ imports e p ∧
    (last.workspace.resolve last.world.disk 0 "p.C").1 = some target ∧ target ∉ r.plan.reachable := by
  obtain ⟨r, last, u, tree, p, ref, done, has, package, _, ⟨emitted, planned⟩, _, ⟨_, found⟩, ⟨_, _, qualified⟩,
    ⟨own, _, type⟩⟩ := exists_companionBuild .typescript
  let e := (defaultBuilder .typescript).context last.workspace tree.file
  have member : ("p.C" : Text) ∈ imports e p := by
    refine mem_imports.mpr ⟨⟨"C", .inr type, ⟨by decide, ?_, by decide⟩, qualified⟩, by decide, ?_⟩ <;>
      rw [own] <;> decide
  exact ⟨r, last, 0, u, tree, e, p, 2, done, emitted, has, package, ⟨rfl, rfl, rfl⟩, member, found, by simp [planned]⟩

end Example

open Workspace

variable {package name path : Text} {f : SourceFile}

theorem joinName_nil (name : Text) : joinName [] name = name := rfl

theorem joinName_of_ne_nil (named : package ≠ []) (name : Text) :
    joinName package name = package ++ ('.' : UInt8) :: name := by
  rw [joinName, if_neg (by simpa using named), append_assoc]
  rfl

theorem joinName_ne_nil (package : Text) (filled : name ≠ []) : joinName package name ≠ [] := by
  by_cases named : package = []
  · rwa [named, joinName_nil]
  · simp [joinName_of_ne_nil named]

theorem joinName_injective (package : Text) : Function.Injective (joinName package) := by
  intro x y same
  by_cases named : package = []
  · rwa [named, joinName_nil, joinName_nil] at same
  · rw [joinName_of_ne_nil named, joinName_of_ne_nil named] at same
    exact tail_eq_of_cons_eq (append_cancel_left same)

/-- A name is its own qualified name in the unnamed package only. -/
theorem joinName_eq_self_iff : joinName package name = name ↔ package = [] := by
  refine ⟨fun same => ?_, fun unnamed => by rw [unnamed, joinName_nil]⟩
  by_contra named
  have length := congrArg length same
  rw [joinName_of_ne_nil named, length_append, length_cons] at length
  omega

section Bare

variable (bare : ('.' : UInt8) ∉ name)

include bare

theorem contains_dot_joinName : (joinName package name).contains '.' ↔ package ≠ [] := by
  by_cases named : package = []
  · simpa [named, joinName_nil] using bare
  · simp [named, joinName_of_ne_nil named]

theorem TypeScript.localName_joinName : localName (joinName package name) = name := by
  by_cases named : package = []
  · have uncut : cutLast? "." name = none := cutLast?_append [] bare
    rw [named, joinName_nil, localName, uncut]
    rfl
  · have last : cutLast? "." (package ++ ('.' : UInt8) :: name) = some (package, name) :=
      cutLast?_append_cons package bare
    rw [joinName_of_ne_nil named, localName, last]
    rfl

end Bare

theorem Reference.name_ne_nil {ref : Reference} (inside : ref ∈ f.references) : ref.name ≠ [] := by
  have kept : ∀ (rs : List Reference) (seen : List Text), ref ∈ firstOf seen rs → ref.name ≠ [] := by
    intro rs
    induction rs with
    | nil => exact fun seen absent => by cases absent
    | cons r rs ih =>
      intro seen mem
      unfold firstOf at mem
      split at mem
      · exact ih seen mem
      · rename_i new
        rcases mem_cons.mp mem with rfl | later
        · rintro empty
          simp [empty] at new
        · exact ih _ later
  exact kept _ _ inside

theorem ProjectConfig.qualifiedName_of_bare (c : ProjectConfig) {p : Package} (package : f.package = some p)
    (plain : (':' : UInt8) ∉ name) (bare : ('.' : UInt8) ∉ name) (unimported : ∀ i ∈ p.imports, (i.name ==
    name || endsWith i.name ("." ++ name)) = false) : c.qualifiedName f name = joinName p.name name := by
  have uncut : cut? ":" name = none := by
    have whole := cut?_append plain []
    rwa [append_nil] at whole
  have dotless : name.contains '.' = false := by simpa using bare
  have none : p.imports.find? (fun i => i.name == name || endsWith i.name ("." ++ name)) = none :=
    find?_eq_none.mpr fun i mem => by simp [unimported i mem]
  simp only [qualifiedName, uncut, package, dotless, none]
  rfl

/-- A bare parent that no import has and that no unit is found for. -/
structure Workspace.IsBuiltIn (w : Workspace) (d : Disk) (project : ProjectId) (c : ProjectConfig) (f : SourceFile)
    (p : Package) (ref : Reference) : Prop where
  described : w.Described
  config : w.project? project = some c
  package : f.package = some p
  inside : ref ∈ f.references
  parent : ref.kind = .extended ∨ ref.kind = .implemented
  bare : ('.' : UInt8) ∉ ref.name ∧ (':' : UInt8) ∉ ref.name
  unimported : ∀ i ∈ p.imports, (i.name == ref.name || Text.endsWith i.name ("." ++ ref.name)) = false
  unresolved : (w.resolve d project (c.qualifiedName f ref.name)).1 = none

namespace Workspace.IsBuiltIn

variable {w : Workspace} {d : Disk} {project : ProjectId} {c : ProjectConfig} {p : Package} {ref : Reference}

section

variable (h : w.IsBuiltIn d project c f p ref)

include h

theorem qualifiedName_eq : c.qualifiedName f ref.name = joinName p.name ref.name :=
  c.qualifiedName_of_bare h.package h.bare.2 h.bare.1 h.unimported

theorem qualifiedName_ne_nil : c.qualifiedName f ref.name ≠ [] :=
  h.qualifiedName_eq ▸ joinName_ne_nil _ (Reference.name_ne_nil h.inside)

theorem kind_ne : ref.kind ≠ .resource := by
  rcases h.parent with kind | kind <;> simp [kind]

theorem find_eq : c.find d f ref = .builtIn := by
  have nowhere : c.locate d (c.candidates (c.qualifiedName f ref.name)) = none := by
    have absent := h.unresolved
    rw [resolve_eq h.config] at absent
    rcases firstUnit_leads h.described h.config d (c.candidates (c.qualifiedName f ref.name)) with
      ⟨nowhere, _⟩ | ⟨_, _, _, found, _⟩
    · exact nowhere
    · rw [absent] at found
      cases found
  have quiet : needsWarning ref = false := by
    rcases h.parent with kind | kind <;> simp [needsWarning, kind, h.bare]
  simp [ProjectConfig.find, h.kind_ne, h.qualifiedName_ne_nil, nowhere, quiet]

end

section Contexts

variable {σ : Type} {b : Builder σ} {e : EmitContext} (h : w.IsBuiltIn d b.project c f p ref) (emits : b.Emits w f e)

include h emits

theorem qualify_eq : e.qualify ref.name = joinName p.name ref.name := by
  rw [emits.qualify, qualify, if_neg (by simpa using Reference.name_ne_nil h.inside), h.config]
  dsimp only
  rw [if_neg (by simpa using h.qualifiedName_ne_nil), h.qualifiedName_eq]

theorem qualify_eq_self_iff : e.qualify ref.name = ref.name ↔ p.name = [] := by
  rw [h.qualify_eq emits, joinName_eq_self_iff]

theorem mem_requires_iff :
    e.qualify ref.name ∈ JavaScript.requires e (JavaScript.provides p) ↔ p.name ≠ [] ∧ ref.name ∉ p.ownNames := by
  have refers : e.RefersTo (e.qualify ref.name) := ⟨ref, emits.file.symm ▸ h.inside, h.kind_ne, rfl⟩
  have provided : e.qualify ref.name ∈ JavaScript.provides p ↔ ref.name ∈ p.ownNames := by
    rw [h.qualify_eq emits]
    exact mem_map_of_injective (joinName_injective p.name)
  rw [JavaScript.mem_requires, provided, h.qualify_eq emits, contains_dot_joinName h.bare.1, ← h.qualify_eq emits]
  exact and_iff_right refers

theorem typeName_eq_self_iff :
    typeName e ref.name = ref.name ↔ ∀ word ∈ primitives.find? ref.name, word = ref.name := by
  have filled : ref.name.isEmpty = false := by simpa using Reference.name_ne_nil h.inside
  rw [typeName, filled, h.qualify_eq emits, localName_joinName h.bare.1]
  cases primitives.find? ref.name with
  | none | some word => simp

theorem not_mem_imports (unnamed : p.name = []) : e.qualify ref.name ∉ imports e p := by
  intro imported
  have dotted := (mem_imports.mp imported).2.1
  rw [h.qualify_eq emits, contains_dot_joinName h.bare.1] at dotted
  exact dotted unnamed

theorem mem_imports (named : p.name ≠ []) (imports : TypeScript.Imports p ref.name)
    (foreign : joinName p.name ref.name ∉ p.ownNames) : e.qualify ref.name ∈ TypeScript.imports e p := by
  refine TypeScript.mem_imports.mpr
    ⟨⟨ref.name, .inl ⟨ref, emits.file.symm ▸ h.inside, h.kind_ne, rfl⟩, imports, rfl⟩, ?_⟩
  rw [h.qualify_eq emits, contains_dot_joinName h.bare.1]
  exact ⟨named, foreign⟩

end Contexts

end Workspace.IsBuiltIn

/-- Whether a file calls a parent by its bare name and requires nothing for it. -/
def JavaScript.IsBare (e : EmitContext) (p : Package) (name : Text) : Prop :=
  e.qualify name = name ∧ e.qualify name ∉ requires e (provides p)

/-- Whether a module calls a parent by its bare name and imports nothing for it. -/
def TypeScript.IsBare (e : EmitContext) (p : Package) (name : Text) : Prop :=
  typeName e name = name ∧ e.qualify name ∉ imports e p

/-- Dependency resolution records nothing for a built-in name. The emitted files call it by its bare name if they are
in the unnamed package, in TypeScript only if the language has no other word for it, and import it like a unit of their
package otherwise. -/
theorem Workspace.IsBuiltIn.isBare_iff {w : Workspace} {d : Disk} {c : ProjectConfig} {f : SourceFile} {p : Package}
    {ref : Reference} {σ : Type} {b t : Builder σ} {script module : EmitContext}
    (builtIn : w.IsBuiltIn d b.project c f p ref) (shared : t.project = b.project)
    (javaScript : b.settings.backend = .javascript) (typeScript : t.settings.backend = .typescript)
    (emits : b.Emits w f script) (also : t.Emits w f module) :
    (∀ (r : Resolution) (self : UnitId) (u : CompilationUnit), u.project = b.project → r.workspace.Described →
      r.workspace.project? b.project = some c →
      (resolveReference d self u f r ref).dependencies = r.dependencies ∧
        (resolveReference d self u f r ref).diagnostics = r.diagnostics) ∧
    (Text.unlines (JavaScript.head script p) <+: (emitFile script).text ∧
      ∀ decl ∈ p.decls, ∀ line, JavaScript.ParentLine script p.name ref.name (script.qualify ref.name) decl line →
        (emitFile script).Shows line) ∧
    (Text.unlines (head module p) <+: (emitFile module).text ∧
      ∀ decl ∈ p.decls, ∀ line ∈ header module (typeName module) decl,
        (emitFile module).Shows line) ∧
    (script.qualify ref.name = ref.name ↔ p.name = []) ∧
    (script.qualify ref.name ∈ JavaScript.requires script (JavaScript.provides p) ↔
      p.name ≠ [] ∧ ref.name ∉ p.ownNames) ∧
    (typeName module ref.name = ref.name ↔
      ∀ word ∈ primitives.find? ref.name, word = ref.name) ∧
    (p.name ≠ [] → TypeScript.Imports p ref.name → joinName p.name ref.name ∉ p.ownNames →
      module.qualify ref.name ∈ imports module p) ∧
    (JavaScript.IsBare script p ref.name ∧ TypeScript.IsBare module p ref.name ↔
      p.name = [] ∧ ∀ word ∈ primitives.find? ref.name, word = ref.name) := by
  have typed : w.IsBuiltIn d t.project c f p ref := shared.symm ▸ builtIn
  have filled := Reference.name_ne_nil builtIn.inside
  refine ⟨fun r self u own described config => ?_, ?_, ?_,
    builtIn.qualify_eq_self_iff emits, builtIn.mem_requires_iff emits, typed.typeName_eq_self_iff also,
    typed.mem_imports also, ?_⟩
  · have takes := resolveReference_takes described (own ▸ config) d self f ref
    rwa [builtIn.find_eq] at takes
  · have package : script.file.package = some p := emits.file ▸ builtIn.package
    rw [emitFile, emits.settings, javaScript]
    exact ⟨JavaScript.head_prefix script package, fun decl member line parent =>
      JavaScript.file_shows_parentLine script package filled (builtIn.qualify_eq emits ▸ joinName_ne_nil _ filled)
        member parent⟩
  · have package : module.file.package = some p := also.file ▸ builtIn.package
    rw [emitFile, also.settings, typeScript]
    exact ⟨ head_prefix module package, fun decl member line header =>
      file_shows_header module package member header⟩
  · rw [JavaScript.IsBare, TypeScript.IsBare, builtIn.qualify_eq_self_iff emits, builtIn.mem_requires_iff emits,
      typed.typeName_eq_self_iff also]
    constructor
    · rintro ⟨⟨unnamed, _⟩, words, _⟩
      exact ⟨unnamed, words⟩
    · rintro ⟨unnamed, words⟩
      exact ⟨⟨unnamed, fun required => required.1 unnamed⟩, words, typed.not_mem_imports also unnamed⟩

section Example

def derivedFiles : Disk :=
  { entries :=
      [("/src/A.kn", { content := "class A extends Error\nend\n" }),
        ("/src/p/A.kn", { content := "package p\nclass A extends Error\nend\n" })] }

def derivedPlaces : List (Text × Text) := [("/src/A.kn", ""), ("/src/p/A.kn", "p")]

set_option synthInstance.maxSize 1000 in
/-- A build of one of these files emits it, and takes its superclass for a built-in type. -/
theorem exists_derivedBuild (place : (path, package) ∈ derivedPlaces) : ∃ r last u tree p ref,
      (defaultBuilder .javascript).build (freshState mutualProject derivedFiles) path = (.ok r, last) ∧
      0 ∈ r.plan.emitted ∧ last.workspace.HasTree 0 u tree ∧
      last.workspace.IsBuiltIn last.world.disk 0 mutualProject tree.file p ref ∧
      p.name = package ∧ p.ownNames = [("A" : Text)] ∧ ref.name = ("Error" : Text) := by
  have checked : ∃ r last u tree p ref,
      (defaultBuilder .javascript).build (freshState mutualProject derivedFiles) path = (.ok r, last) ∧
      last.workspace.HasTree 0 u tree ∧ tree.file.package = some p ∧ ref ∈ tree.file.references ∧
      (0 ∈ r.plan.emitted ∧ ref.kind = .extended ∧ p.imports.isEmpty ∧ (last.workspace.resolve last.world.disk 0
        (mutualProject.qualifiedName tree.file ref.name)).1 = none) ∧
      p.name = package ∧ p.ownNames = [("A" : Text)] ∧ ref.name = ("Error" : Text) := by
    refine exists_tree_of_check 0 ?_
    simp only [build, buildWith, buildFrom, Workspace.plan, Workspace.reachable, LinkOrder.traverse, LinkOrder.visitRoots,
      LinkOrder.visit_eq_visitBy]
    simp only [derivedPlaces, mem_cons, Prod.mk.injEq, not_mem_nil, or_false] at place
    rcases place with ⟨rfl, rfl⟩ | ⟨rfl, rfl⟩ <;> decide +kernel
  obtain ⟨r, last, u, tree, p, ref, done, has, package, inside, ⟨emitted, kind, alone, unresolved⟩, facts⟩ := checked
  have start : (freshState mutualProject derivedFiles).IsValid Storage.disk (fun _ => True) [mutualProject]
      (fun _ => True) [] := BuildState.isValid_fresh trivial ⟨fun _ => rfl, fun _ _ _ _ => trivial⟩ rfl
  obtain ⟨final, _⟩ := build_covers start (spares_bucketBuilderWith _ _) rooted_mutualProject done
  refine ⟨r, last, u, tree, p, ref, done, emitted, has, ?_, facts⟩
  refine ⟨final.workspace.described, final.workspace.project?_eq rfl, package, inside, .inl kind, ?_, ?_, unresolved⟩
  · rw [facts.2.2]
    decide
  · rw [List.isEmpty_iff.mp alone]
    exact forall_mem_nil _

theorem isBare_derivedFiles : ∃ r last id u tree p ref script module,
    (defaultBuilder .javascript).build (freshState Workspace.mutualProject derivedFiles) "/src/A.kn" =
      (.ok r, last) ∧
    id ∈ r.plan.emitted ∧ last.workspace.HasTree id u tree ∧
    last.workspace.IsBuiltIn last.world.disk 0 Workspace.mutualProject tree.file p ref ∧
    (defaultBuilder .javascript).Emits last.workspace tree.file script ∧
    (defaultBuilder .typescript).Emits last.workspace tree.file module ∧
    JavaScript.IsBare script p ref.name ∧ TypeScript.IsBare module p ref.name := by
  have place : (("/src/A.kn" : Text), ("" : Text)) ∈ derivedPlaces := by decide
  obtain ⟨r, last, u, tree, p, ref, done, emitted, has, builtIn, unnamed, _, called⟩ := exists_derivedBuild place
  let script := (defaultBuilder .javascript).context last.workspace tree.file
  let module := (defaultBuilder .typescript).context last.workspace tree.file
  have words : ∀ word ∈ primitives.find? ref.name, word = ref.name := by
    rw [called]
    decide
  have emits : (defaultBuilder .javascript).Emits last.workspace tree.file script := ⟨rfl, rfl, rfl⟩
  have also : (defaultBuilder .typescript).Emits last.workspace tree.file module := ⟨rfl, rfl, rfl⟩
  have bare := (Workspace.IsBuiltIn.isBare_iff (b := defaultBuilder .javascript) (t := defaultBuilder .typescript)
    builtIn rfl rfl rfl emits also).2.2.2.2.2.2.2.mpr ⟨unnamed, words⟩
  exact ⟨r, last, 0, u, tree, p, ref, script, module, done, emitted, has, builtIn, emits, also, bare⟩

/-- In a package the superclass is required, and called by a qualified name. -/
theorem not_isBare_derivedFiles : ∃ r last id u tree p ref e,
    (defaultBuilder .javascript).build (freshState Workspace.mutualProject derivedFiles) "/src/p/A.kn" =
      (.ok r, last) ∧
    id ∈ r.plan.emitted ∧ last.workspace.HasTree id u tree ∧
    last.workspace.IsBuiltIn last.world.disk 0 Workspace.mutualProject tree.file p ref ∧
    (defaultBuilder .javascript).Emits last.workspace tree.file e ∧
    ("p.Error" : Text) ∈ JavaScript.requires e (JavaScript.provides p) ∧ e.qualify ref.name = ("p.Error" : Text) ∧
    ¬ JavaScript.IsBare e p ref.name := by
  have place : (("/src/p/A.kn" : Text), ("p" : Text)) ∈ derivedPlaces := by decide
  obtain ⟨r, last, u, tree, p, ref, done, emitted, has, builtIn, named, own, called⟩ := exists_derivedBuild place
  let e := (defaultBuilder .javascript).context last.workspace tree.file
  have emits : (defaultBuilder .javascript).Emits last.workspace tree.file e := ⟨rfl, rfl, rfl⟩
  have qualified : e.qualify ref.name = ("p.Error" : Text) := by
    rw [builtIn.qualify_eq (b := defaultBuilder .javascript) emits, named, called]
    decide
  have required : e.qualify ref.name ∈ JavaScript.requires e (JavaScript.provides p) := by
    rw [builtIn.mem_requires_iff (b := defaultBuilder .javascript) emits, named, own, called]
    decide
  exact ⟨r, last, 0, u, tree, p, ref, e, done, emitted, has, builtIn, emits, qualified ▸ required, qualified,
    fun bare => bare.2 required⟩

end Example

end ScriptBuild
