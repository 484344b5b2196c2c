import ScriptBuild.Proofs.ModuleNames
import ScriptBuild.Proofs.StubRuns

/-! Where the stubs of a run are. -/

namespace ScriptBuild

open List ExternModel Stub EntryKind Writer

def Entry.place (e : Entry) : Text × Text := (e.kind.directory, e.name)

def ExternClass.place (c : ExternClass) : Text × Text :=
  ((if c.isInterface then interface else classType).directory, c.name)

namespace Stub

def place : Stub → Text × Text
  | ofClass c _ => c.place
  | ofMember c e => (standIn c e).place
  | ofEntry e => e.place

def pathAt (place : Text × Text) : Text := artifactPath place.1 place.2 "as"

theorem isWord_directory (k : EntryKind) : k.directory ≠ [] ∧ ModuleName.IsWord k.directory := by
  cases k <;> exact ⟨by decide, by decide, by decide⟩

/-- Stubs have the same path if and only if they are in the same directory and their names stand for the same
module. -/
theorem pathAt_eq_iff {p q : Text × Text} {k l : EntryKind} (left : p.1 = k.directory) (right : q.1 = l.directory) :
    pathAt p = pathAt q ↔ p.1 = q.1 ∧ ModuleName.of p.2 = ModuleName.of q.2 := by
  obtain ⟨filled, word⟩ := isWord_directory k
  obtain ⟨present, simple⟩ := isWord_directory l
  rw [← left] at filled word
  rw [← right] at present simple
  exact artifactPath_eq_artifactPath_iff filled word present simple (by decide) ⟨by decide, by decide⟩ p.2 q.2

end Stub

namespace StubConfig

variable (config : StubConfig) (m : ExternModel)

/-- The entries that stand for the static members of a class, as far as they get stubs of their own. -/
def promotedOf (c : ExternClass) : List Entry :=
  if !config.policy.excludes c.entry && config.flattens c then
    ((c.members.filter (·.isStatic)).filter fun e => !config.policy.excludes e).map (standIn c)
  else []

def promoted : List Entry := m.classes.flatMap config.promotedOf

def keptEntries : List Entry := m.topLevel.filter fun e => !config.policy.excludes e

/-- The places of all stubs: those of classes, of members that stand alone, and of entries at top level. -/
def places : List (Text × Text) :=
  (m.classes.filter config.writesClass).map ExternClass.place ++
    ((config.promoted m).map Entry.place ++ (config.keptEntries m).map Entry.place)

theorem perm_places : ((config.stubs m).map place).Perm (config.places m) := by
  have promoted : ∀ c, config.promotedOf c = (config.aloneOf c).map (standIn c) := by
    intro c
    unfold promotedOf aloneOf standsAlone
    by_cases excluded : config.policy.excludes c.entry <;> by_cases flat : config.flattens c <;> simp [excluded, flat]
  refine ((perm_stubs config m).map _).trans (.of_eq ?_)
  simp [places, StubConfig.promoted, promoted, keptEntries, map_flatMap, Function.comp_def, place]

/-- A member stands alone as a function or as a constant. -/
theorem kind_of_mem_promoted {e : Entry} (mem : e ∈ config.promoted m) :
    e.kind = .function ∨ e.kind = .constant := by
  obtain ⟨c, _, inside⟩ := mem_flatMap.mp mem
  unfold promotedOf at inside
  split at inside
  · obtain ⟨x, _, rfl⟩ := mem_map.mp inside
    unfold standIn StubRun.flattened
    split
    · exact .inl rfl
    · exact .inr rfl
  · cases inside

theorem exists_directory_of_mem_places {p : Text × Text} (mem : p ∈ config.places m) :
    ∃ k : EntryKind, p.1 = k.directory := by
  rcases mem_append.mp mem with type | other
  · obtain ⟨c, _, rfl⟩ := mem_map.mp type
    exact ⟨_, rfl⟩
  · rw [← map_append] at other
    obtain ⟨e, _, rfl⟩ := mem_map.mp other
    exact ⟨_, rfl⟩

/-- Whether all stubs of a model have places of their own. -/
structure IsApart : Prop where
  /-- No two static members that stand alone share directory and name, -/
  members : ((config.promoted m).map Entry.place).Nodup
  /-- nor does one share them with an entry at top level. -/
  entries : ∀ e ∈ config.promoted m, ∀ x ∈ config.keptEntries m, e.place ≠ x.place
  /-- Names in one directory differ in more than empty packages. -/
  spelling : ∀ p ∈ config.places m, ∀ q ∈ config.places m, p.1 = q.1 → ModuleName.of p.2 = ModuleName.of q.2 → p = q

variable {m}

variable (names : (m.topLevel.map Entry.name ++ m.classes.map ExternClass.name).Nodup)

include names

/-- Names that are all different leave nothing but the static members that stand alone to be told apart. -/
theorem nodup_places_iff :
    (config.places m).Nodup ↔ ((config.promoted m).map Entry.place).Nodup ∧
      ∀ e ∈ config.promoted m, ∀ x ∈ config.keptEntries m, e.place ≠ x.place := by
  obtain ⟨top, types, apart⟩ := nodup_append.mp names
  have classes : ((m.classes.filter config.writesClass).map ExternClass.place).Nodup := by
    refine .of_map Prod.snd ?_
    rw [map_map]
    exact types.sublist (filter_sublist.map _)
  have entries : ((config.keptEntries m).map Entry.place).Nodup := by
    refine .of_map Prod.snd ?_
    rw [map_map]
    exact top.sublist (filter_sublist.map _)
  have classApart : ∀ p ∈ (m.classes.filter config.writesClass).map ExternClass.place,
      ∀ q ∈ (config.promoted m).map Entry.place ++ (config.keptEntries m).map Entry.place, p ≠ q := by
    intro p type q other same
    obtain ⟨c, held, rfl⟩ := mem_map.mp type
    rcases mem_append.mp other with mem | entry
    · obtain ⟨e, inside, rfl⟩ := mem_map.mp mem
      have directory := congrArg Prod.fst same
      have differ : ∀ isInterface : Bool, ∀ k ∈ [function, constant],
          (if isInterface then interface else classType).directory ≠ k.directory := by decide
      exact differ _ _ (by simpa using config.kind_of_mem_promoted m inside) directory
    · obtain ⟨e, kept, rfl⟩ := mem_map.mp entry
      have name : c.name = e.name := congrArg Prod.snd same
      exact apart _ (mem_map_of_mem (mem_of_mem_filter kept)) _
        (mem_map_of_mem (mem_of_mem_filter held)) name.symm
  rw [places, nodup_append, nodup_append]
  constructor
  · rintro ⟨_, ⟨members, _, disjoint⟩, _⟩
    exact ⟨members, fun e inside x kept => disjoint _ (mem_map_of_mem inside) _ (mem_map_of_mem kept)⟩
  · rintro ⟨members, disjoint⟩
    refine ⟨classes, ⟨members, entries, fun p inside q kept => ?_⟩, classApart⟩
    obtain ⟨e, promoted, rfl⟩ := mem_map.mp inside
    obtain ⟨x, there, rfl⟩ := mem_map.mp kept
    exact disjoint e promoted x there

theorem nodup_paths_iff : ((config.stubs m).map path).Nodup ↔ config.IsApart m := by
  have paths : ((config.stubs m).map path).Perm ((config.places m).map pathAt) := by
    have same : (config.stubs m).map path = ((config.stubs m).map place).map pathAt := by
      rw [map_map]
      exact map_congr_left fun s _ => by cases s <;> rfl
    rw [same]
    exact (config.perm_places m).map _
  have equal : ∀ p ∈ config.places m, ∀ q ∈ config.places m,
      (pathAt p = pathAt q ↔ p.1 = q.1 ∧ ModuleName.of p.2 = ModuleName.of q.2) := by
    intro p left q right
    obtain ⟨k, first⟩ := config.exists_directory_of_mem_places m left
    obtain ⟨l, second⟩ := config.exists_directory_of_mem_places m right
    exact pathAt_eq_iff first second
  rw [paths.nodup_iff]
  constructor
  · intro distinct
    obtain ⟨members, entries⟩ := (config.nodup_places_iff names).mp (.of_map _ distinct)
    refine ⟨members, entries, fun p left q right directory module => ?_⟩
    exact inj_on_of_nodup_map distinct left right ((equal p left q right).mpr ⟨directory, module⟩)
  · rintro ⟨members, entries, spelling⟩
    refine Nodup.map_on (fun p left q right same => ?_) ((config.nodup_places_iff names).mpr ⟨members, entries⟩)
    obtain ⟨directory, module⟩ := (equal p left q right).mp same
    exact spelling p left q right directory module

end StubConfig

/-- After writes to different paths, each of them is still there. -/
theorem Writer.read_foldl {σ : Type} (writer : Writer σ) (read : σ → Text → Option Text)
    (reads : ∀ world path text other,
      read (writer.write world path text).2 other = if other = path then some text else read world other)
    {files : List (Text × Text)} (distinct : (files.map (·.1)).Nodup) (world : σ) :
    ∀ f ∈ files, read (files.foldl (fun world f => (writer.write world f.1 f.2).2) world) f.1 = some f.2 := by
  induction files using reverseRecOn with
  | nil => exact forall_mem_nil _
  | append_singleton files last ih =>
    rw [map_append, nodup_append] at distinct
    obtain ⟨earlier, _, apart⟩ := distinct
    intro f mem
    rw [foldl_append, foldl_cons, foldl_nil, reads]
    rcases mem_append.mp mem with old | new
    · have other : f.1 ≠ last.1 := apart _ (mem_map_of_mem old) _ (by simp)
      rw [if_neg other]
      exact ih earlier f old
    · rw [mem_singleton.mp new, if_pos rfl]

/-- A run that can write everything puts its stubs at different paths if and only if they are apart. -/
theorem StubRun.nodup_written_iff {σ : Type} (config : StubConfig) (writer : Writer σ)
    (accepts : ∀ world path text, (writer.write world path text).1 = .ok ()) (read : σ → Text → Option Text)
    (reads : ∀ world path text other,
      read (writer.write world path text).2 other = if other = path then some text else read world other)
    (world : σ) (decls : List ExternDecl) :
    ∃ run, emit ⟨config, writer, none⟩ (ofDecls decls).1 { world } = .ok run ∧
      ((run.written.map (·.1)).Nodup ↔ config.IsApart (ofDecls decls).1) ∧
      (config.IsApart (ofDecls decls).1 → ∀ f ∈ run.written, read run.world f.1 = some f.2) := by
  obtain ⟨run, done, adds⟩ := emit_adds config accepts (ofDecls decls).1 { world }
  have written : run.written = (config.stubs (ofDecls decls).1).map (file config.policy) :=
    adds.written
  have final : run.world = run.written.foldl (fun world f => (writer.write world f.1 f.2).2) world :=
    written ▸ adds.world
  have distinct : (run.written.map (·.1)).Nodup ↔ config.IsApart (ofDecls decls).1 := by
    rw [written, List.map_map]
    exact config.nodup_paths_iff (keeps_ofDecls decls).nodup_names
  refine ⟨run, done, distinct, fun apart => ?_⟩
  rw [final]
  exact writer.read_foldl read reads (distinct.mpr apart) world

def Writer.recorded (kept : List (Text × Text)) (path : Text) : Option Text := kept.reverse.lookup path

theorem Writer.recorded_write (kept : List (Text × Text)) (path text other : Text) :
    recorded (recorder.write kept path text).2 other =
      if other = path then some text else recorded kept other := by
  simp only [recorder, recorded, reverse_append, reverse_singleton, singleton_append, lookup_cons]
  by_cases same : other = path
  · simp [same]
  · rw [if_neg same, beq_eq_false_iff_ne.mpr same]

/-- Classes of two packages with static members of one name, and a function of that name. -/
def packagedDecls : List ExternDecl :=
  [.type { kind := .classType, name := "a.A" } [] [], .type { kind := .classType, name := "b.B" } [] [],
    .entry true { kind := .method, owner := "a.A", name := "f", isStatic := true },
    .entry true { kind := .method, owner := "b.B", name := "f", isStatic := true },
    .entry false { kind := .field, owner := "b.B", name := "x" }, .entry false { kind := .function, name := "f" }]

def packagedConfig : StubConfig where
  root := "stubs"
  externals := []
  flattened := ["a.A", "b.B"]
  policy := .ofRules []

theorem StubRun.nodup_written_packagedDecls :
    packagedConfig.IsApart (ofDecls packagedDecls).1 ∧
    ∃ run,
      emit ⟨packagedConfig, recorder, none⟩ (ofDecls packagedDecls).1 ⟨[], [], 0, []⟩ = .ok run ∧
      (run.written.map (·.1)).Nodup ∧ ∀ f ∈ run.written, recorded run.world f.1 = some f.2 := by
  have apart : packagedConfig.IsApart (ofDecls packagedDecls).1 := ⟨by decide, by decide, by decide⟩
  obtain ⟨run, done, distinct, there⟩ := nodup_written_iff packagedConfig recorder (fun _ _ _ => rfl)
    recorded recorded_write [] packagedDecls
  exact ⟨apart, run, done, distinct.mpr apart, there apart⟩

deriving instance DecidableEq for ExternDecl

/-- Two constructors with a static function of one name. -/
def sharedNameText : Text :=
  "/** @constructor */\nfunction A() \x7b\x7d\nA.f = function(x) \x7b\x7d;\n" ++
    "/** @constructor */\nfunction B() \x7b\x7d\nB.f = function() \x7b\x7d;\n"

def sharedNameDecls : List ExternDecl :=
  [.type { kind := .classType, name := "A", file := "/ext/a.js", line := 2 } [] [], .entry true
      { kind := .method, owner := "A", name := "f", isStatic := true, params := [{ name := "x" }], file := "/ext/a.js",
        line := 3 },
    .type { kind := .classType, name := "B", file := "/ext/a.js", line := 5 } [] [],
    .entry true { kind := .method, owner := "B", name := "f", isStatic := true, file := "/ext/a.js", line := 6 }]

def sharedNameConfig : StubConfig where
  root := "/as"
  externals := ["/ext"]
  flattened := ["A", "B"]
  policy := .ofRules []

/-- Flattened into functions of one package, both get the same path, and nothing is reported. -/
theorem StubRun.not_nodup_written_sharedName :
    ExternDecl.ofFile "/ext/a.js" sharedNameText = (sharedNameDecls, []) ∧
    (ofDecls sharedNameDecls).2 = [] ∧
    ∃ run,
      emit ⟨sharedNameConfig, recorder, none⟩ (ofDecls sharedNameDecls).1 ⟨[], [], 0, []⟩ = .ok run ∧
      run.written = [(("functions/f.as" : Text), ("package \x7b\npublic function f(x:*):void \x7b\x7d\n\x7d\n" : Text)),
        ("functions/f.as", "package \x7b\npublic function f():void \x7b\x7d\n\x7d\n")] ∧
      ¬ (run.written.map (·.1)).Nodup ∧ run.diagnostics = [] := by
  obtain ⟨run, done, adds⟩ := @emit_adds _ sharedNameConfig recorder (fun _ _ _ => rfl)
    (ofDecls sharedNameDecls).1 ⟨[], [], 0, []⟩
  have sorted : (ofDecls sharedNameDecls).1.sortedClasses =
      (ofDecls sharedNameDecls).1.classes := List.mergeSort_of_pairwise (by decide)
  have written := adds.written
  rw [StubConfig.stubs, sorted] at written
  refine ⟨by decide +kernel, by decide, run, done, ?_, ?_, ?_⟩
  · rw [written]
    decide +kernel
  · rw [written]
    decide
  · rw [adds.diagnostics, sorted]
    decide

end ScriptBuild
