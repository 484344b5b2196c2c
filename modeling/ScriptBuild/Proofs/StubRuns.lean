import ScriptBuild.Proofs.CorpusRecords
import ScriptBuild.Proofs.EmittedLines
import ScriptBuild.Stub.Run

/-! Stub runs and exclusion policies. -/

namespace ScriptBuild

open List ExclusionPolicy ExternModel Buffer StubConfig

variable {e : Entry} {c : ExternClass}

namespace Buffer

variable {b : Buffer} {depth : Nat}

def indented (depth : Nat) (s : Text) : Text := (({ unit := "    ", depth } : Buffer).write s).text

/-- A buffer for a stub in which the next line starts inside of so many blocks. -/
structure AtLine (depth : Nat) (b : Buffer) : Prop where
  depth : b.depth = depth
  unit : b.unit = "    "
  start : b.atLineStart = true

variable (ready : b.AtLine depth) (texts : List Text)

include ready

theorem AtLine.text_write (s : Text) : (b.write s).text = b.text ++ indented depth s := by
  rw [Buffer.text_write, indented, Buffer.text_write, ready.depth, ready.unit, ready.start]
  rfl

theorem AtLine.line (s : Text) : (b.line s).AtLine depth := by
  refine ⟨(b.extends_write _).depth.trans ready.depth, (b.extends_write _).unit.trans ready.unit, ?_⟩
  rw [Buffer.line, write, foldl_append]
  rfl

theorem AtLine.lines : (b.lines texts).AtLine depth := by
  induction texts generalizing b with
  | nil => exact ready
  | cons s texts ih => exact ih (ready.line s)

theorem AtLine.text_lines : (b.lines texts).text = b.text ++ texts.flatMap fun s => indented depth (s ++ "\n") := by
  induction texts generalizing b with
  | nil => simp [Buffer.lines]
  | cons s texts ih =>
    show ((b.line s).lines texts).text = _
    rw [ih (ready.line s), Buffer.line, ready.text_write]
    simp

end Buffer

/-- How a member of a class is rendered: in the stub of its class, declared or commented out, or in a stub of its
own. -/
inductive StubForm where
  | declared
  | commented
  | alone
  deriving DecidableEq

structure Rendering where
  holder : ExternClass
  member : Entry
  form : StubForm

def ExclusionPolicy.excludes (policy : ExclusionPolicy) (e : Entry) : Bool := (policy.rule? e).isSome

def StubText.docLines (text : Text) : List Text :=
  if text.isEmpty then []
  else
    [("/**" : Text)] ++
      ((Text.split '\n' text).map fun (l : Text) => if l.isEmpty then (" *" : Text) else " * " ++ l) ++
      [(" */" : Text)]

def Rendering.lines (policy : ExclusionPolicy) (r : Rendering) : List Text :=
  let declaration := StubText.member r.member r.holder.isInterface
  if r.form = .commented then [ExclusionRule.placeholder (policy.rule? r.member) declaration]
  else StubText.docLines r.member.doc ++ [declaration]

/-- A stub: of a class with some of its members, of a single member, or of an entry at top level. -/
inductive Stub where
  | ofClass (c : ExternClass) (members : List Entry)
  | ofMember (c : ExternClass) (e : Entry)
  | ofEntry (e : Entry)

namespace Stub

variable (policy : ExclusionPolicy)

def class? : Stub → Option ExternClass
  | ofClass c _ => some c
  | ofMember _ _ | ofEntry _ => none

def entry? : Stub → Option Entry
  | ofEntry e => some e
  | ofClass _ _ | ofMember _ _ => none

def renderings : Stub → List Rendering
  | ofClass c members => members.map fun e => ⟨c, e, if policy.excludes e then .commented else .declared⟩
  | ofMember c e => [⟨c, e, .alone⟩]
  | ofEntry _ => []

/-- A static member as the entry that stands for it in the package of its class. -/
def standIn (c : ExternClass) (e : Entry) : Entry := StubRun.flattened (splitName c.name).1 e

def path : Stub → Text
  | ofClass c _ =>
    artifactPath (if c.isInterface then EntryKind.interface else EntryKind.classType).directory c.name "as"
  | ofMember c e => artifactPath (standIn c e).kind.directory (standIn c e).name "as"
  | ofEntry e => artifactPath e.kind.directory e.name "as"

/-- The buffer with the beginning of the stub of a class, up to its members. -/
def opening (c : ExternClass) : Buffer :=
  let (package, name) := splitName c.name
  let b := ((StubText.doc (StubText.openPackage package) c.entry.doc).line (StubText.classHeader c name)).indent
  if c.isInterface then b
  else b.line ("public function " ++ name ++ "(" ++ StubText.params c.entry.params ++ ") \x7b\x7d")

/-- The stub of a class is its beginning, the lines of each member it renders, and its end. -/
def text : Stub → Text
  | ofClass c members =>
    (opening c).text ++ ((ofClass c members).renderings policy).flatMap (fun r =>
        (r.lines policy).flatMap fun line => indented 1 (line ++ "\n")) ++ "\x7d\n\x7d\n"
  | ofMember c e => StubText.topLevel (standIn c e)
  | ofEntry e => StubText.topLevel e

def file (s : Stub) : Text × Text := (s.path, s.text policy)

end Stub

namespace StubText

variable (policy : ExclusionPolicy) (c : ExternClass) (b : Buffer)

theorem doc_eq_lines (text : Text) : doc b text = b.lines (docLines text) := by
  unfold doc docLines
  split
  · rfl
  · rw [lines_append]
    rfl

theorem atLine_opening : (Stub.opening c).AtLine 1 := by
  have package : (openPackage (splitName c.name).1).AtLine 0 :=
    Buffer.AtLine.line (b := { unit := "    " }) ⟨rfl, rfl, rfl⟩ _
  have header : ((doc (openPackage (splitName c.name).1) c.entry.doc).line
      (classHeader c (splitName c.name).2)).AtLine 0 := by
    rw [doc_eq_lines]
    exact (package.lines _).line _
  have inside := header.depth
  have block : (((doc (openPackage (splitName c.name).1) c.entry.doc).line
      (classHeader c (splitName c.name).2)).indent).AtLine 1 :=
    ⟨by rw [indent, inside], header.unit, header.start⟩
  unfold Stub.opening
  dsimp only
  split
  · exact block
  · exact block.line _

theorem classMember_eq_lines (e : Entry) :
    classMember policy c.isInterface b e =
      b.lines (Rendering.lines policy ⟨c, e, if policy.excludes e then .commented else .declared⟩) := by
  unfold classMember Rendering.lines excludes
  cases excluded : policy.rule? e with
  | some rule => rfl
  | none =>
    rw [doc_eq_lines]
    simp [lines]

theorem classText_eq (members : List Entry) : classText policy c members = (Stub.ofClass c members).text policy := by
  have each : ∀ (members : List Entry) (b : Buffer), b.AtLine 1 →
      (members.foldl (classMember policy c.isInterface) b).AtLine 1 ∧
      (members.foldl (classMember policy c.isInterface) b).text = b.text ++
        ((Stub.ofClass c members).renderings policy).flatMap fun r =>
          (r.lines policy).flatMap fun line => indented 1 (line ++ "\n") := by
    intro members
    induction members with
    | nil => exact fun b ready => ⟨ready, by simp [Stub.renderings]⟩
    | cons e members ih =>
      intro b ready
      rw [foldl_cons, classMember_eq_lines]
      refine ⟨(ih _ (ready.lines _)).1, ?_⟩
      rw [(ih _ (ready.lines _)).2, ready.text_lines]
      simp [Stub.renderings]
  have body := each members (Stub.opening c) (atLine_opening c)
  have flat : (members.foldl (classMember policy c.isInterface) (Stub.opening c)).dedent.depth = 0 := by
    rw [dedent, body.1.depth]
  show ((members.foldl (classMember policy c.isInterface) (Stub.opening c)).dedent.write "\x7d\n\x7d\n").text = _
  rw [write_of_flat flat, Stub.text, ← body.2]
  rfl

end StubText

def ExclusionPolicy.warning (policy : ExclusionPolicy) (e : Entry) : Diagnostic :=
  let description : Text := ((policy.rule? e).map (·.description)).getD []
  let reason : Text := if description.isEmpty then [] else ": " ++ description
  .warning .excluded e.file e.line (e.kind.label ++ " " ++ e.qualifiedName ++ " excluded" ++ reason)

namespace StubConfig

variable (config : StubConfig)

/-- Whether the static members of a class become entries of their own. -/
def flattens (c : ExternClass) : Bool := config.flattened.contains c.name

/-- Whether a class gets a stub: it is kept, and not flattened until nothing is left. -/
def writesClass (c : ExternClass) : Bool :=
  !config.policy.excludes c.entry && (!config.flattens c || c.hasInstanceMembers)

/-- How a member of a class that is kept is rendered, if at all. -/
def form? (c : ExternClass) (e : Entry) : Option StubForm :=
  if config.flattens c && e.isStatic then if config.policy.excludes e then none else some .alone
  else if config.policy.excludes e then some .commented
  else some .declared

def rendering? (c : ExternClass) (e : Entry) : Option Rendering :=
  if config.policy.excludes c.entry then none else (config.form? c e).map fun form => ⟨c, e, form⟩

/-- Whether a member is rendered in a stub of its own, if at all. -/
def standsAlone (c : ExternClass) (e : Entry) : Bool := config.flattens c && e.isStatic

def aloneOf (c : ExternClass) : List Entry :=
  if config.policy.excludes c.entry then []
  else (c.members.filter (config.standsAlone c)).filter fun e => !config.policy.excludes e

def insideOf (c : ExternClass) : List Entry := c.members.filter fun e => !config.standsAlone c e

def classStubs (c : ExternClass) : List Stub :=
  (config.aloneOf c).map (.ofMember c) ++ ([c].filter config.writesClass).map fun c => .ofClass c (config.insideOf c)

def classExclusions (c : ExternClass) : List Entry :=
  if config.policy.excludes c.entry then [c.entry]
  else if config.flattens c then
    (c.members.filter (·.isStatic)).filter config.policy.excludes ++
      (c.members.filter fun e => !e.isStatic).filter config.policy.excludes
  else c.members.filter config.policy.excludes

def stubs (m : ExternModel) : List Stub :=
  m.sortedClasses.flatMap config.classStubs ++
    ((m.functions ++ m.constants ++ m.typedefs).filter fun e => !config.policy.excludes e).map .ofEntry

/-- What is left out of a model: classes, top-level entries, and members of the other classes. -/
def exclusions (m : ExternModel) : List Entry :=
  (m.classes.map (·.entry)).filter config.policy.excludes ++ m.topLevel.filter config.policy.excludes ++
    (m.classes.filter fun c => !config.policy.excludes c.entry).flatMap fun c =>
      c.members.filter config.policy.excludes

end StubConfig

namespace StubRun

variable {σ : Type} {config : StubConfig} {writer : Writer σ} {r middle later : StubRun σ}

/-- A run after stubs were written and entries left out. -/
structure Adds (config : StubConfig) (writer : Writer σ) (r later : StubRun σ) (stubs : List Stub)
    (omitted : List Entry) : Prop where
  written : later.written = r.written ++ stubs.map (Stub.file config.policy)
  world : later.world =
    (stubs.map (Stub.file config.policy)).foldl (fun world f => (writer.write world f.1 f.2).2) r.world
  excluded : later.excluded = r.excluded + omitted.length
  diagnostics : later.diagnostics = r.diagnostics ++ omitted.map config.policy.warning

theorem Adds.refl (r : StubRun σ) : Adds config writer r r [] [] := by constructor <;> simp

theorem Adds.trans {stubs more : List Stub} {omitted others : List Entry}
    (first : Adds config writer r middle stubs omitted) (second : Adds config writer middle later more others) :
    Adds config writer r later (stubs ++ more) (omitted ++ others) where
  written := by rw [second.written, first.written, map_append, append_assoc]
  world := by rw [second.world, first.world, map_append, foldl_append]
  excluded := by rw [second.excluded, first.excluded, length_append, Nat.add_assoc]
  diagnostics := by rw [second.diagnostics, first.diagnostics, map_append, append_assoc]

theorem adds_foldl {α : Type} {step : StubRun σ → α → StubRun σ} {stubs : α → List Stub} {omitted : α → List Entry}
    (each : ∀ r x, Adds config writer r (step r x) (stubs x) (omitted x)) (xs : List α) :
    ∀ r, Adds config writer r (xs.foldl step r) (xs.flatMap stubs) (xs.flatMap omitted) := by
  induction xs with
  | nil => exact .refl
  | cons x xs ih =>
    intro r
    exact (each r x).trans (ih (step r x))

theorem adds_exclude {rule : ExclusionRule} (found : config.policy.rule? e = some rule) :
    Adds config writer r (r.exclude e rule) [] [e] := by
  constructor <;> simp [exclude, warning, found]

/-- Leaving members out of the stub of their class is only reported. -/
theorem adds_excludeMembers (members : List Entry) (r : StubRun σ) :
    Adds config writer r (excludeMembers config.policy r members) [] (members.filter config.policy.excludes) := by
  have each : ∀ (r : StubRun σ) (e : Entry),
      Adds config writer r (excludeMembers config.policy r [e]) [] ([e].filter config.policy.excludes) := by
    intro r e
    rw [excludeMembers]
    cases found : config.policy.rule? e with
    | some rule => simpa [excludes, found] using adds_exclude found
    | none => simpa [excludes, found] using Adds.refl r
  have all := adds_foldl each members r
  have none : members.flatMap (fun _ => ([] : List Stub)) = [] := flatMap_eq_nil_iff.mpr fun _ _ => rfl
  rw [none, ← filter_flatMap, flatMap_singleton'] at all
  exact all

section

variable (config) (accepts : ∀ world path text, (writer.write world path text).1 = .ok ())

include accepts

theorem adds_write (r : StubRun σ) (stub : Stub) (e : Entry) {directory name text : Text}
    (place : stub.path = artifactPath directory name "as") (content : stub.text config.policy = text) :
    Adds config writer r (r.write ⟨config, writer, none⟩ directory name text e) [stub] [] := by
  have accepted := accepts r.world (artifactPath directory name "as") text
  have result : r.write ⟨config, writer, none⟩ directory name text e = { r with
        world := (writer.write r.world (artifactPath directory name "as") text).2
        written := r.written ++ [(artifactPath directory name "as", text)] } := by
    unfold write isCanceled
    dsimp only
    rw [if_neg (by simp), accepted]
  rw [result]
  constructor <;> simp [Stub.file, place, content]

theorem adds_flattenMember (c : ExternClass) (r : StubRun σ) (e : Entry) :
    Adds config writer r (flattenMember ⟨config, writer, none⟩ (splitName c.name).1 r e)
      (([e].filter fun e => !config.policy.excludes e).map (.ofMember c)) ([e].filter config.policy.excludes) := by
  unfold flattenMember
  cases found : config.policy.rule? e with
  | some rule => simpa [excludes, found] using adds_exclude found
  | none =>
    have written : Adds config writer r (writeTopLevel ⟨config, writer, none⟩ r (Stub.standIn c e))
        [.ofMember c e] [] := adds_write config accepts r _ _ rfl rfl
    simpa [excludes, found, Stub.standIn] using written

theorem adds_writeClass (c : ExternClass) (r : StubRun σ) (members : List Entry) :
    Adds config writer r (writeClass ⟨config, writer, none⟩ r c members) [.ofClass c members]
      (members.filter config.policy.excludes) := by
  have written := adds_write config accepts (excludeMembers config.policy r members)
    (.ofClass c members) c.entry rfl (StubText.classText_eq config.policy c members).symm
  simpa [writeClass] using (adds_excludeMembers members r).trans written

theorem adds_classStep (r : StubRun σ) (c : ExternClass) :
    Adds config writer r (classStep ⟨config, writer, none⟩ r c) (config.classStubs c)
      (config.classExclusions c) := by
  unfold classStep classStubs classExclusions aloneOf insideOf
  cases found : config.policy.rule? c.entry with
  | some rule => simpa [excludes, found, writesClass] using adds_exclude found
  | none =>
    have kept : config.policy.excludes c.entry = false := by simp [excludes, found]
    cases flat : config.flattened.contains c.name with
    | true =>
      have static := adds_foldl (adds_flattenMember config accepts c) (c.members.filter (·.isStatic)) r
      rw [← filter_flatMap, ← map_flatMap, ← filter_flatMap, flatMap_singleton'] at static
      have alone : config.standsAlone c = (·.isStatic) := by
        funext e
        rw [standsAlone, flattens, flat, Bool.true_and]
      have writes : config.writesClass c = c.hasInstanceMembers := by
        rw [writesClass, flattens, kept, flat]
        rfl
      simp only [flattens, flat, kept, alone, filter_cons, filter_nil, writes]
      by_cases left : c.hasInstanceMembers
      · simpa [left, alone] using static.trans (adds_writeClass config accepts c _ (c.members.filter fun e => !e.isStatic))
      · have none : (c.members.filter fun e => !e.isStatic) = [] := by
          simpa [ExternClass.hasInstanceMembers] using left
        simpa [left, none] using static
    | false =>
      have inside : config.standsAlone c = fun _ => false := by
        funext e
        rw [standsAlone, flattens, flat, Bool.false_and]
      have writes : config.writesClass c := by
        rw [writesClass, flattens, kept, flat]
        rfl
      simpa [flattens, flat, kept, inside, writes, -contains_eq_mem] using
        adds_writeClass config accepts c r c.members

theorem adds_entryStep (r : StubRun σ) (e : Entry) :
    Adds config writer r (entryStep ⟨config, writer, none⟩ r e)
      (([e].filter fun e => !config.policy.excludes e).map .ofEntry) ([e].filter config.policy.excludes) := by
  unfold entryStep
  cases found : config.policy.rule? e with
  | some rule => simpa [excludes, found] using adds_exclude found
  | none =>
    have written : Adds config writer r (writeTopLevel ⟨config, writer, none⟩ r e) [.ofEntry e] [] :=
      adds_write config accepts r _ _ rfl rfl
    simpa [excludes, found] using written

/-- A run writes the stubs of the classes, sorted by name, and then those of the other entries. -/
theorem emit_adds (m : ExternModel) (r : StubRun σ) : ∃ later, emit ⟨config, writer, none⟩ m r = .ok later ∧
      Adds config writer r later (config.stubs m)
        (m.sortedClasses.flatMap config.classExclusions ++
          (m.functions ++ m.constants ++ m.typedefs).filter config.policy.excludes) := by
  have all : ∀ {α : Type} (step : StubRun σ → α → StubRun σ) (xs : List α) (r : StubRun σ),
      each ⟨config, writer, none⟩ step r xs = .ok (xs.foldl step r) := by
    intro α step xs
    induction xs with
    | nil => exact fun _ => rfl
    | cons x xs ih => exact fun r => ih (step r x)
  have classes := adds_foldl (adds_classStep config accepts) m.sortedClasses r
  have entries := adds_foldl (adds_entryStep config accepts) (m.functions ++ m.constants ++ m.typedefs)
    (m.sortedClasses.foldl (classStep ⟨config, writer, none⟩) r)
  rw [← filter_flatMap, ← map_flatMap, ← filter_flatMap, flatMap_singleton'] at entries
  refine ⟨_, ?_, classes.trans entries⟩
  simp only [emit, all]
  rfl

end

end StubRun

namespace StubConfig

variable (config : StubConfig) (m : ExternModel)

theorem perm_sortedClasses : m.sortedClasses.Perm m.classes := mergeSort_perm _ _

theorem perm_topLevel : (m.functions ++ m.constants ++ m.typedefs).Perm m.topLevel := by
  rw [topLevel, append_assoc m.typedefs]
  exact perm_append_comm

/-- The stubs of a run: one for each class that is written, for each member that stands alone and for each entry at
top level that is kept. -/
theorem perm_stubs : (config.stubs m).Perm
    ((m.classes.filter config.writesClass).map (fun c => .ofClass c (config.insideOf c)) ++
      ((m.classes.flatMap fun c => (config.aloneOf c).map (.ofMember c)) ++
        (m.topLevel.filter fun e => !config.policy.excludes e).map .ofEntry)) := by
  rw [← append_assoc]
  refine (((perm_sortedClasses m).flatMap_right _).trans ?_).append (((perm_topLevel m).filter _).map _)
  refine (flatMap_append_perm m.classes _ _).symm.trans (perm_append_comm.trans ?_)
  rw [← map_flatMap, ← filter_flatMap, flatMap_singleton']

theorem rendering?_eq (kept : ¬ config.policy.excludes c.entry) (e : Entry) : config.rendering? c e =
    if config.standsAlone c e then if config.policy.excludes e then none else some ⟨c, e, .alone⟩
    else some ⟨c, e, if config.policy.excludes e then .commented else .declared⟩ := by
  rw [rendering?, if_neg kept, form?, standsAlone]
  cases config.flattens c && e.isStatic <;> cases config.policy.excludes e <;> rfl

/-- The members that stand alone and those inside of the stub of a class are all that are rendered. -/
theorem perm_renderings (kept : ¬ config.policy.excludes c.entry) (members : List Entry) :
    ((((members.filter (config.standsAlone c)).filter fun e => !config.policy.excludes e).map (.ofMember c)).flatMap
        (Stub.renderings config.policy) ++
      (Stub.ofClass c (members.filter fun e => !config.standsAlone c e)).renderings config.policy).Perm
      (members.filterMap (config.rendering? c)) := by
  induction members with
  | nil => exact .refl _
  | cons e members ih =>
    simp only [Stub.renderings] at ih ⊢
    cases alone : config.standsAlone c e with
    | true =>
      by_cases excluded : config.policy.excludes e
      · simpa [rendering?_eq config kept, alone, excluded] using ih
      · simpa [rendering?_eq config kept, alone, excluded, Stub.renderings] using ih.cons (⟨c, e, .alone⟩ : Rendering)
    | false => simpa [rendering?_eq config kept, alone] using
        perm_middle.trans (ih.cons ⟨c, e, if config.policy.excludes e then .commented else .declared⟩)

theorem perm_renderings_stubs : ((config.stubs m).flatMap (Stub.renderings config.policy)).Perm
      ((m.classes.flatMap fun c => c.members.map (Prod.mk c)).filterMap fun p => config.rendering? p.1 p.2) := by
  have entries : ∀ es : List Entry, (es.map Stub.ofEntry).flatMap (Stub.renderings config.policy) = [] := by
    simp [Stub.renderings]
  rw [stubs, flatMap_append, entries, append_nil, flatMap_assoc, filterMap_flatMap]
  refine ((perm_sortedClasses m).flatMap_right _).trans (List.Perm.flatMap_left _ fun c _ => ?_)
  rw [filterMap_map, classStubs, flatMap_append, aloneOf]
  by_cases excluded : config.policy.excludes c.entry
  · simp [excluded, rendering?, writesClass]
  · have own := perm_renderings config excluded c.members
    rw [if_neg excluded]
    by_cases left : config.writesClass c
    · simpa [left, insideOf] using own
    · have flat : config.flattens c ∧ ∀ e ∈ c.members, e.isStatic := by
        simpa [writesClass, excluded, ExternClass.hasInstanceMembers] using left
      have nothing : (c.members.filter fun e => !config.standsAlone c e) = [] := by
        simpa [standsAlone, flat.1] using flat.2
      simpa [left, nothing, Stub.renderings] using own

theorem perm_classExclusions (c : ExternClass) (kept : ¬ config.policy.excludes c.entry) :
    (config.classExclusions c).Perm (c.members.filter config.policy.excludes) := by
  rw [classExclusions, if_neg kept]
  split
  · rw [← filter_append]
    exact (filter_append_perm _ _).filter _
  · exact .refl _

theorem perm_exclusions : (m.sortedClasses.flatMap config.classExclusions ++
      (m.functions ++ m.constants ++ m.typedefs).filter config.policy.excludes).Perm (config.exclusions m) := by
  have classes : ∀ classes : List ExternClass, (classes.flatMap config.classExclusions).Perm
      ((classes.map (·.entry)).filter config.policy.excludes ++
        (classes.filter fun c => !config.policy.excludes c.entry).flatMap fun c =>
          c.members.filter config.policy.excludes) := by
    intro classes
    induction classes with
    | nil => exact .refl _
    | cons c classes ih =>
      by_cases excluded : config.policy.excludes c.entry
      · simpa [classExclusions, excluded] using ih
      · have own := (perm_classExclusions config c excluded).append ih
        refine own.trans ?_
        simpa [excluded] using perm_append_comm_assoc _ _ _
  refine (((perm_sortedClasses m).flatMap_right _).trans (classes m.classes)).append
    ((perm_topLevel m).filter _) |>.trans ?_
  rw [exclusions, append_assoc, append_assoc]
  exact perm_append_comm.append_left _

/-- What stubs make of a model: which classes and entries they are for, each once, and how they render each member
of a class. -/
structure Realizes (stubs : List Stub) : Prop where
  classes : (stubs.filterMap Stub.class?).Perm (m.classes.filter config.writesClass)
  entries : (stubs.filterMap Stub.entry?).Perm (m.topLevel.filter fun e => !config.policy.excludes e)
  members : ∀ c ∈ m.classes, ∀ e ∈ c.members,
    (stubs.flatMap (Stub.renderings config.policy)).filter (fun r => r.member = e) = (config.rendering? c e).toList
  nothingElse : ∀ r ∈ stubs.flatMap (Stub.renderings config.policy), r.holder ∈ m.classes ∧ r.member ∈ r.holder.members

theorem filter_eq_singleton {α β : Type} [DecidableEq β] {key : α → β} {xs : List α} (distinct : (xs.map key).Nodup)
    {x : α} (mem : x ∈ xs) : xs.filter (fun y => key y = key x) = [x] := by
  induction xs with
  | nil => cases mem
  | cons y xs ih =>
    obtain ⟨fresh, rest⟩ := nodup_cons.mp distinct
    rcases mem_cons.mp mem with rfl | later
    · have others : xs.filter (fun y => key y = key x) = [] := by
        rw [filter_eq_nil_iff]
        intro y inside same
        exact fresh (mem_map.mpr ⟨y, inside, of_decide_eq_true same⟩)
      simp [others]
    · have differs : key y ≠ key x := fun same => fresh (same ▸ mem_map_of_mem later)
      simp [differs, ih rest later]

theorem mem_of_rendering {r : Rendering} (rendered : config.rendering? c e = some r) : r.holder = c ∧ r.member = e := by
  unfold rendering? at rendered
  split at rendered
  · cases rendered
  · obtain ⟨form, _, rfl⟩ := Option.map_eq_some_iff.mp rendered
    exact ⟨rfl, rfl⟩

/-- Of all members of a model, the renderings for one are that one's. -/
theorem filter_renderings {m : ExternModel} (filed : m.IsFiled) (held : c ∈ m.classes) (mem : e ∈ c.members) :
    ((m.classes.flatMap fun c => c.members.map (Prod.mk c)).filterMap fun p =>
      config.rendering? p.1 p.2).filter (fun r => r.member = e) = (config.rendering? c e).toList := by
  have pair : (c, e) ∈ m.classes.flatMap fun c => c.members.map (Prod.mk c) :=
    mem_flatMap.mpr ⟨c, held, mem_map_of_mem mem⟩
  have distinct : ((m.classes.flatMap fun c => c.members.map (Prod.mk c)).map Prod.snd).Nodup := by
    have entries := (nodup_append.mp (filed.nodup.of_map)).2.1
    rw [map_flatMap]
    simpa [Function.comp_def] using (nodup_append.mp entries.of_map).2.1
  have own : ∀ p : ExternClass × Entry, (config.rendering? p.1 p.2).filter (fun r => r.member = e) =
      if decide (p.2 = e) = true then config.rendering? p.1 p.2 else none := by
    intro p
    cases rendered : config.rendering? p.1 p.2 with
    | none => simp
    | some r => simp [Option.filter, (mem_of_rendering config rendered).2]
  rw [filter_filterMap, filterMap_congr fun p _ => own p, ← filterMap_filter, filter_eq_singleton distinct pair]
  cases rendered : config.rendering? c e <;> simp [rendered]

theorem realizes_stubs {m : ExternModel} (filed : m.IsFiled) : config.Realizes m (config.stubs m) where
  classes := by
    refine ((perm_stubs config m).filterMap _).trans (.of_eq ?_)
    simp [filterMap_flatMap, Function.comp_def, Stub.class?]
  entries := by
    refine ((perm_stubs config m).filterMap _).trans (.of_eq ?_)
    simp [filterMap_flatMap, Function.comp_def, Stub.entry?]
  members := by
    intro c held e mem
    have all := (perm_renderings_stubs config m).filter fun r => r.member = e
    rw [filter_renderings config filed held mem] at all
    cases rendered : config.rendering? c e with
    | none =>
      rw [rendered] at all
      exact perm_nil.mp all
    | some r =>
      rw [rendered] at all
      exact perm_singleton.mp all
  nothingElse := by
    intro r rendered
    obtain ⟨p, pair, made⟩ := mem_filterMap.mp ((perm_renderings_stubs config m).mem_iff.mp rendered)
    obtain ⟨c, held, inside⟩ := mem_flatMap.mp pair
    obtain ⟨e, mem, rfl⟩ := mem_map.mp inside
    obtain ⟨holder, same⟩ := mem_of_rendering config made
    rw [holder, same]
    exact ⟨held, mem⟩

end StubConfig

/-- A run that can write everything does what the policy says: it writes one stub for each class and top-level entry
that is kept and not empty, renders each member of a kept class once, and counts and reports once what is excluded. -/
theorem StubRun.emit_realizes {σ : Type} (config : StubConfig) (writer : Writer σ)
    (accepts : ∀ world path text, (writer.write world path text).1 = .ok ()) (world : σ) (decls : List ExternDecl) :
    ∃ run stubs, emit ⟨config, writer, none⟩ (ofDecls decls).1 { world } = .ok run ∧
      run.written = stubs.map (Stub.file config.policy) ∧
      run.world = run.written.foldl (fun world f => (writer.write world f.1 f.2).2) world ∧
      config.Realizes (ofDecls decls).1 stubs ∧
      run.diagnostics.Perm ((config.exclusions (ofDecls decls).1).map config.policy.warning) ∧
      run.excluded = run.diagnostics.countP fun d => d.kind == .excluded && d.severity == .warning := by
  obtain ⟨run, done, adds⟩ := emit_adds config accepts (ofDecls decls).1 { world }
  have reports : run.diagnostics = _ := adds.diagnostics
  have written : run.written = (config.stubs (ofDecls decls).1).map (Stub.file config.policy) := adds.written
  refine ⟨run, _, done, written, written ▸ adds.world,
    config.realizes_stubs (keeps_ofDecls decls).filed, ?_, ?_⟩
  · rw [reports, List.nil_append]
    exact (config.perm_exclusions _).map _
  · rw [reports, List.nil_append, List.countP_eq_length.mpr]
    · rw [adds.excluded, List.length_map, Nat.zero_add]
    · intro d member
      obtain ⟨e, _, rfl⟩ := List.mem_map.mp member
      rfl

def Writer.recorder : Writer (List (Text × Text)) where
  prepare kept := (.ok (), kept)
  write kept path data := (.ok (), kept ++ [(path, data)])

/-- Declarations of a class with static members and others, of a class that is left out, and of a function. -/
def mixedDecls : List ExternDecl :=
  [.type { kind := .classType, name := "A" } [] [], .type { kind := .classType, name := "B" } [] [],
    .entry true { kind := .method, owner := "A", name := "f", isStatic := true },
    .entry true { kind := .method, owner := "A", name := "g", isStatic := true },
    .entry false { kind := .method, owner := "A", name := "h" },
    .entry false { kind := .field, owner := "A", name := "x" },
    .entry false { kind := .field, owner := "B", name := "x" },
    .entry false { kind := .function, name := "start" }]

/-- Flattens the class `A` without two of its members, and leaves out `B`. -/
def mixedConfig : StubConfig where
  root := "stubs"
  externals := []
  flattened := ["A"]
  policy := .ofRules [⟨.wholeClass, "B", [], []⟩, ⟨.member, "A", "g", []⟩, ⟨.member, "A", "h", "no use"⟩]

theorem StubRun.emit_realizes_mixedDecls :
    (∀ world path text, (Writer.recorder.write world path text).1 = .ok ()) ∧
    (mixedConfig.exclusions (ofDecls mixedDecls).1).map Entry.qualifiedName =
      [("B" : Text), "A.g", "A.h"] ∧
    ∃ run stubs, emit ⟨mixedConfig, Writer.recorder, none⟩ (ofDecls mixedDecls).1 ⟨[], [], 0, []⟩ = .ok run ∧
      run.written = stubs.map (Stub.file mixedConfig.policy) ∧
      run.world = run.written.foldl (fun world f => (Writer.recorder.write world f.1 f.2).2) [] ∧
      mixedConfig.Realizes (ofDecls mixedDecls).1 stubs ∧
      run.diagnostics.Perm
        ((mixedConfig.exclusions (ofDecls mixedDecls).1).map mixedConfig.policy.warning) ∧
      run.excluded = run.diagnostics.countP fun d => d.kind == .excluded && d.severity == .warning :=
  ⟨fun _ _ _ => rfl, by decide,
    emit_realizes mixedConfig Writer.recorder (fun _ _ _ => rfl) [] mixedDecls⟩

end ScriptBuild
