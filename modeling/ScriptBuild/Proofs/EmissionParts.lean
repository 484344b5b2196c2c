import ScriptBuild.Proofs.EmittedLines

/-! Emission as a list of parts. -/

namespace ScriptBuild

open List Text

/-- Where source code is written: the initial value of a variable, the default of a parameter, a function body. -/
inductive Site where
  | initial (v : Variable)
  | default (f : Function) (p : Param)
  | body (f : Function)

inductive Part where
  | text (s : Text)
  | indent
  | dedent
  /-- An empty line after what is there already. -/
  | separate
  | code (site : Site) (scope : Scope)

namespace Part

def line (s : Text) : Part := .text (s ++ "\n")

def run (style : ScriptStyle) (statements : Function → List Statement) (b : Buffer) : Part → Buffer
  | .text s => b.write s
  | .indent => b.indent
  | .dedent => b.dedent
  | .separate => b.separate
  | .code (.initial v) scope => b.write ((v.init.map fun x => x.script style scope).getD [])
  | .code (.default _ p) scope => b.write ((p.default.map fun x => x.script style scope).getD [])
  | .code (.body f) scope => Statement.emitBody style scope b (statements f)

def runAll (style : ScriptStyle) (statements : Function → List Statement) (b : Buffer) (parts : List Part) : Buffer :=
  parts.foldl (run style statements) b

variable (style : ScriptStyle) (statements : Function → List Statement) (b : Buffer)

@[simp] theorem runAll_nil : runAll style statements b [] = b := rfl

@[simp] theorem runAll_cons (part : Part) (parts : List Part) :
    runAll style statements b (part :: parts) = runAll style statements (part.run style statements b) parts := rfl

@[simp] theorem runAll_append (parts more : List Part) :
    runAll style statements b (parts ++ more) = runAll style statements (runAll style statements b parts) more :=
  foldl_append

@[simp] theorem run_text (s : Text) : (text s).run style statements b = b.write s := rfl

@[simp] theorem run_indent : indent.run style statements b = b.indent := rfl

@[simp] theorem run_dedent : dedent.run style statements b = b.dedent := rfl

@[simp] theorem run_initial (v : Variable) (scope : Scope) : (code (.initial v) scope).run style statements b =
      b.write ((v.init.map fun x => x.script style scope).getD []) := rfl

@[simp] theorem run_default (f : Function) (p : Param) (scope : Scope) :
    (code (.default f p) scope).run style statements b =
      b.write ((p.default.map fun x => x.script style scope).getD []) := rfl

@[simp] theorem run_body (f : Function) (scope : Scope) :
    (code (.body f) scope).run style statements b = Statement.emitBody style scope b (statements f) := rfl

@[simp] theorem run_line (s : Text) : (line s).run style statements b = b.line s := rfl

@[simp] theorem runAll_lines (texts : List Text) : runAll style statements b (texts.map line) = b.lines texts := by
  rw [runAll, foldl_map]
  rfl

theorem runAll_flatMap {α : Type} {step : Buffer → α → Buffer} {parts : α → List Part}
    (each : ∀ (b : Buffer) (x : α), runAll style statements b (parts x) = step b x) (xs : List α) :
    ∀ b, runAll style statements b (xs.flatMap parts) = xs.foldl step b := by
  induction xs with
  | nil => exact fun _ => rfl
  | cons x xs ih =>
    intro b
    rw [flatMap_cons, runAll_append, each, ih]
    rfl

/-- How many blocks are open after a part. -/
def depth (n : Nat) : Part → Nat
  | .indent => n + 1
  | .dedent => n - 1
  | _ => n

theorem runAll_keeps (parts : List Part) (b : Buffer) : b.text <+: (runAll style statements b parts).text ∧
    (runAll style statements b parts).unit = b.unit ∧
    (runAll style statements b parts).depth = parts.foldl depth b.depth := by
  have step : ∀ (part : Part) (b : Buffer), b.text <+: (part.run style statements b).text ∧
      (part.run style statements b).unit = b.unit ∧ (part.run style statements b).depth = depth b.depth part := by
    intro part b
    have written : ∀ {later : Buffer}, b.Extends later →
        b.text <+: later.text ∧ later.unit = b.unit ∧ later.depth = b.depth :=
      fun more => ⟨more.text, more.unit, more.depth⟩
    cases part with
    | text s => exact written (b.extends_write s)
    | indent | dedent => exact ⟨prefix_refl _, rfl, rfl⟩
    | separate => exact written b.extends_separate
    | code site scope =>
      cases site with
      | initial v | default f p => exact written (b.extends_write _)
      | body f => exact written (Statement.extends_emitAll style _ (scope, b))
  induction parts generalizing b with
  | nil => exact ⟨prefix_refl _, rfl, rfl⟩
  | cons part parts ih =>
    obtain ⟨first, unit, open_⟩ := step part b
    obtain ⟨rest, same, deep⟩ := ih (part.run style statements b)
    exact ⟨first.trans rest, same.trans unit, deep.trans (by rw [open_]; rfl)⟩

/-- Parts that leave as many blocks open as there were. -/
abbrev Balanced (parts : List Part) : Prop := ∀ n, parts.foldl depth n = n

@[simp] theorem balanced_lines (texts : List Text) : Balanced (texts.map line) := by
  intro n
  induction texts with
  | nil => rfl
  | cons s texts ih => exact ih

@[simp] theorem balanced_flatMap {α : Type} {f : α → List Part} (each : ∀ x n, (f x).foldl depth n = n) (xs : List α) :
    Balanced (xs.flatMap f) := by
  intro n
  induction xs with
  | nil => rfl
  | cons x xs ih => rw [flatMap_cons, foldl_append, each, ih]

/-- A line outside of all blocks. -/
def Shows (parts : List Part) (s : Text) : Prop := ∃ front back, Balanced front ∧ parts = front ++ line s :: back

variable {parts more : List Part} {s : Text}

theorem Shows.extend (shown : Shows parts s) (start : parts <+: more) : Shows more s := by
  obtain ⟨front, back, balanced, rfl⟩ := shown
  obtain ⟨rest, rfl⟩ := start
  exact ⟨front, back ++ rest, balanced, by simp⟩

theorem Shows.append_left (shown : Shows more s) (balanced : Balanced parts) : Shows (parts ++ more) s := by
  obtain ⟨front, back, own, rfl⟩ := shown
  exact ⟨parts ++ front, back, fun n => by rw [foldl_append, balanced, own], by simp⟩

theorem shows_lines {texts : List Text} (mem : s ∈ texts) : Shows (texts.map line) s := by
  obtain ⟨before, after, rfl⟩ := append_of_mem mem
  exact ⟨before.map line, after.map line, balanced_lines before, by simp⟩

theorem shows_file {d : Decl} {ds : List Decl} {f : Decl → List Part} (balanced : ∀ d, Balanced (f d)) (mem : d ∈ ds)
    (shown : Shows (f d) s) (head : List Text) : Shows (head.map line ++ ds.flatMap fun d => .separate :: f d) s := by
  obtain ⟨before, after, rfl⟩ := append_of_mem mem
  rw [flatMap_append, flatMap_cons]
  have inner : Shows ([separate] ++ f d) s := shown.append_left fun _ => rfl
  exact ((inner.extend (prefix_append _ _)).append_left (balanced_flatMap (f := fun d => separate :: f d)
    (fun d n => balanced d n) before)).append_left (balanced_lines head)

theorem Shows.runAll (shown : Shows parts s) {b : Buffer} (flat : b.depth = 0) :
    (runAll style statements b parts).Shows s := by
  obtain ⟨front, back, balanced, rfl⟩ := shown
  have open_ : (runAll style statements b front).depth = 0 := by rw [(runAll_keeps ..).2.2, balanced, flat]
  rw [runAll_append, runAll_cons, run_line]
  exact (Buffer.shows_line open_ s).trans (runAll_keeps style statements back _).1.isInfix

theorem unlines_prefix (head : List Text) (parts : List Part) {b : Buffer} (flat : b.depth = 0) (empty : b.text = []) :
    unlines head <+: (runAll style statements b (head.map line ++ parts)).text := by
  have start : (b.lines head).text = unlines head := by
    rw [Buffer.lines_eq_write, Buffer.write_of_flat flat, empty, nil_append]
  rw [runAll_append, runAll_lines, ← start]
  exact (runAll_keeps ..).1

def site? : Part → Option (Site × Scope)
  | .code site scope => some (site, scope)
  | _ => none

end Part

namespace JavaScript

open ScriptBuild.Part

variable (c : EmitContext) (b : Buffer)

def docParts (lines : List Text) : List Part := (docLines c lines).map line

def defaultParts (scope : Scope) (f : Function) : List Part :=
  f.params.flatMap fun p =>
    if p.default.isSome then
      [.text (p.name ++ " = " ++ p.name ++ " !== undefined ? " ++ p.name ++ " : "), .code (.default f p) scope,
        line ";"]
    else []

/-- The parts of a function from its head on, with its body if it has one here. -/
def functionParts (p : Place) (f : Function) : List Part :=
  let result := if f.result.isEmpty then [] else [typeTag "return" (typeName c f.result)]
  let head := p.functionTarget f ++ " = function(" ++ paramNames f.params ++ ") \x7b"
  docParts c (docText f.doc ++ paramTags c f.params ++ result) ++
    match p with
    | .interface _ => [line (head ++ "\x7d;")]
    | .package _ | .classBody _ _ =>
      let scope := Scope.enter { members := p.members } f.params
      [line head, .indent] ++ defaultParts scope f ++ [.code (.body f) scope, .dedent, line "\x7d;"]

def variableParts (p : Place) (v : Variable) : List Part :=
  let const : List Text := if v.isConst then ["@const"] else []
  let value : List Part :=
    if v.init.isSome then [.text " = ", .code (.initial v) { members := p.members }, line ";"] else [line ";"]
  docParts c (docText v.doc ++ const ++ [typeTag "type" (typeName c v.type)]) ++
    match p with
    | .interface qname => [line (qname ++ ".prototype." ++ v.name ++ ";")]
    | .classBody qname _ => .text (qname ++ "." ++ v.name) :: value
    | .package name => .text (joinName name v.name) :: value

def memberParts (p : Place) : Member → List Part
  | .function f => functionParts c p f
  | .variable v => variableParts c p v

def fieldParts (scope : Scope) (v : Variable) : List Part :=
  docParts c (docText v.doc ++ [typeTag "type" (typeName c v.type)]) ++
    [.text ("this." ++ v.name ++ " = "), if v.init.isSome then .code (.initial v) scope else .text "null", line ";"]

def constructorScope (package : Text) (k : Class) : Scope :=
  Scope.enter { members := k.qualifiers (joinName package k.name) } (constructorParams k)

def constructorParts (package : Text) (k : Class) : List Part :=
  let qname := joinName package k.name
  let scope := constructorScope package k
  docParts c (classDoc c k (superclass c k) (constructorParams k)) ++
    [line (qname ++ " = function(" ++ paramNames (constructorParams k) ++ ") \x7b"), .indent] ++
    k.constructor?.toList.flatMap (defaultParts scope) ++
    (if (superclass c k).isEmpty then [] else [line (qname ++ ".base(this, 'constructor');")]) ++
    (instanceFields k).flatMap (fieldParts c scope) ++
    k.constructor?.toList.map (fun f => .code (.body f) scope) ++ [.dedent, line "\x7d;"]

def classParts (package : Text) (k : Class) : List Part :=
  let qname := joinName package k.name
  constructorParts c package k ++
    (if (superclass c k).isEmpty then [] else [line (inheritsLine qname (superclass c k))]) ++
    (k.ordinaryMembers.filter fun m => !isInstanceField m).flatMap fun m =>
      line [] :: memberParts c (.classBody qname (k.qualifiers qname)) m

def interfaceParts (package : Text) (i : Interface) : List Part :=
  let qname := joinName package i.name
  docParts c (docText i.doc ++ [("@interface" : Text)] ++ i.parents.map fun x => typeTag "extends" (c.qualify x)) ++
    line (qname ++ " = function() \x7b\x7d;") ::
      i.members.flatMap fun m => line [] :: memberParts c (.interface qname) m

def declarationParts (package : Text) : Decl → List Part
  | .classDecl k => classParts c package k
  | .interface i => interfaceParts c package i
  | .member m => memberParts c (.package package) m

def fileParts : List Part :=
  match c.file.package with
  | some p => (head c p).map line ++ p.decls.flatMap fun d => .separate :: declarationParts c p.name d
  | none => docParts c (c.unitName.toList.map fun name => tag "fileoverview" ("Generated from " ++ name ++ "."))

section

variable (lines : List Text) (p : Place) (package : Text) (scope : Scope) (d : Decl) (f : Function) (k : Class)
  (v : Variable)

theorem runAll_docParts : runAll (style c) c.body b (docParts c lines) = doc c b lines := by
  rw [docParts, runAll_lines, doc_eq_lines]

theorem runAll_defaultParts : runAll (style c) c.body b (defaultParts scope f) = defaults c scope b f.params := by
  unfold defaultParts defaults Buffer.lines
  rw [foldl_filterMap]
  refine runAll_flatMap _ _ (fun b p => ?_) _ b
  cases given : p.default with
  | none => rfl
  | some x => simp [given, Buffer.line, Buffer.write_append]

theorem runAll_functionParts : runAll (style c) c.body b (functionParts c p f) = function c p b f := by
  cases p <;> simp [functionParts, function, runAll_docParts, runAll_defaultParts]

theorem runAll_variableParts : runAll (style c) c.body b (variableParts c p v) = emitVariable c p b v := by
  cases given : v.init <;> cases p <;>
    simp [variableParts, emitVariable, runAll_docParts, given, Buffer.line, Buffer.write_append]

theorem runAll_memberParts (m : Member) : runAll (style c) c.body b (memberParts c p m) = member c p b m := by
  rcases m with f | v
  · exact runAll_functionParts c b p f
  · exact runAll_variableParts c b p v

theorem runAll_fieldParts : runAll (style c) c.body b (fieldParts c scope v) = instanceField c scope b v := by
  cases given : v.init <;>
    simp [fieldParts, instanceField, runAll_docParts, given, Buffer.line, Buffer.write_append]

theorem runAll_members (ms : List Member) :
    runAll (style c) c.body b (ms.flatMap fun m => line [] :: memberParts c p m) =
      ms.foldl (fun b m => member c p b.newline m) b :=
  runAll_flatMap _ _ (fun b m => runAll_memberParts c b.newline p m) ms b

theorem runAll_classParts : runAll (style c) c.body b (classParts c package k) = classText c package b k := by
  have fields := runAll_flatMap (style c) c.body (runAll_fieldParts c · (constructorScope package k)) (instanceFields k)
  have parent : (if k.superclass.isEmpty then [] else c.qualify k.superclass) = superclass c k := rfl
  simp only [classParts, constructorParts, runAll_append, runAll_docParts, fields, runAll_members, classText, parent]
  cases given : k.constructor? with
  | none =>
    by_cases alone : superclass c k = [] <;>
      simp [constructorScope, constructorParams, given, defaults, alone, Buffer.lines, inheritsLine]
  | some f =>
    by_cases alone : superclass c k = [] <;>
      simp [constructorScope, constructorParams, given, runAll_defaultParts, alone, inheritsLine]

theorem runAll_declarationParts :
    runAll (style c) c.body b (declarationParts c package d) = declaration c package b d := by
  cases d with
  | classDecl k => exact runAll_classParts c b package k
  | interface i =>
    rw [declarationParts, interfaceParts, runAll_append, runAll_docParts, runAll_cons, runAll_members]
    rfl
  | member m => exact runAll_memberParts c b _ m

theorem runAll_fileParts : runAll (style c) c.body c.buffer (fileParts c) = file c := by
  unfold fileParts
  cases has : c.file.package with
  | none =>
    simp only [runAll_docParts, file, has]
  | some p =>
    rw [file_eq_foldl c has]
    simp only [runAll_append, runAll_lines]
    exact runAll_flatMap _ _ (fun b d => runAll_declarationParts c b.separate p.name d) _ _

@[simp] theorem balanced_docParts : Balanced (docParts c lines) := balanced_lines _

@[simp] theorem balanced_defaultParts : Balanced (defaultParts scope f) := by
  refine balanced_flatMap (fun p n => ?_) _
  split <;> rfl

@[simp] theorem balanced_memberParts (m : Member) : Balanced (memberParts c p m) := by
  intro n
  rcases m with f | v
  · cases p <;> simp [memberParts, functionParts, depth, line]
  · cases given : v.init <;> cases p <;> simp [memberParts, variableParts, given, depth, line]

@[simp] theorem balanced_constructorParts : Balanced (constructorParts c package k) := by
  intro n
  have fields := balanced_flatMap (f := fieldParts c (constructorScope package k))
    (fun v n => by cases given : v.init <;> simp [fieldParts, given, depth, line]) (instanceFields k)
  cases given : k.constructor? <;> by_cases alone : superclass c k = [] <;>
    simp [constructorParts, fields, given, alone, depth, line]

theorem balanced_declarationParts : Balanced (declarationParts c package d) := by
  intro n
  cases d with
  | classDecl k =>
    by_cases alone : superclass c k = [] <;> simp [declarationParts, classParts, alone, depth, line]
  | interface i => simp [declarationParts, interfaceParts, depth, line]
  | member m => exact balanced_memberParts c _ m n

end

theorem head_prefix {p : Package} (has : c.file.package = some p) : unlines (head c p) <+: (file c).text := by
  rw [← runAll_fileParts, fileParts, has]
  exact unlines_prefix _ _ _ _ rfl rfl

section Parents

variable {c} {package name s label type : Text} {k : Class} {d : Decl}

theorem shows_typeTag (documented : c.settings.isSet "jsdoc") {lines : List Text}
    (mem : typeTag label type ∈ lines) : Shows (docParts c lines) (" * " ++ typeTag label type) := by
  refine shows_lines ?_
  have filled : lines.isEmpty = false := isEmpty_eq_false_iff.mpr (ne_nil_of_mem mem)
  rw [docLines, documented, filled]
  refine mem_append_left _ (mem_append_right _ (mem_map.mpr ⟨_, mem, ?_⟩))
  rfl

theorem superclass_eq (filled : k.superclass ≠ []) : superclass c k = c.qualify k.superclass :=
  if_neg (by simpa using filled)

theorem shows_classDoc (documented : c.settings.isSet "jsdoc")
    (mem : typeTag label type ∈ classDoc c k (superclass c k) (constructorParams k)) :
    Shows (classParts c package k) (" * " ++ typeTag label type) := by
  refine (shows_typeTag documented mem).extend ?_
  simp only [classParts, constructorParts, append_assoc]
  exact prefix_append _ _

theorem shows_parentLine (filled : name ≠ []) (qualified : c.qualify name ≠ [])
    (line : ParentLine c package name (c.qualify name) d s) : Shows (declarationParts c package d) s := by
  cases line with
  | inherited parent =>
    subst parent
    rw [← superclass_eq filled] at qualified ⊢
    exact ⟨_, _, balanced_constructorParts c package _, by simp [declarationParts, classParts, qualified]; rfl⟩
  | superclass documented parent =>
    subst parent
    rw [← superclass_eq filled] at qualified ⊢
    refine shows_classDoc documented ?_
    simp [classDoc, qualified]
  | implemented documented parent =>
    refine shows_classDoc documented ?_
    simp only [classDoc, mem_append, mem_map]
    exact .inl (.inr ⟨name, parent, rfl⟩)
  | extended documented parent =>
    refine (shows_typeTag documented (mem_append_right _ ?_)).extend (prefix_append _ _)
    exact mem_map.mpr ⟨name, parent, rfl⟩

end Parents

theorem file_shows_parentLine {p : Package} {d : Decl} {s : Text} (has : c.file.package = some p) {name : Text}
    (filled : name ≠ []) (qualified : c.qualify name ≠ []) (mem : d ∈ p.decls)
    (line : ParentLine c p.name name (c.qualify name) d s) : (file c).Shows s := by
  rw [← runAll_fileParts, fileParts, has]
  have shown := shows_parentLine filled qualified line
  exact (shows_file (balanced_declarationParts c p.name) mem shown _).runAll _ _ rfl

end JavaScript

namespace TypeScript

open ScriptBuild.Part

variable (c : EmitContext) (b : Buffer)

def docLines (text : Text) : List Text :=
  if text.isEmpty then []
  else
    match split '\n' text with
    | [line] => ["/** " ++ line ++ " */"]
    | lines => [("/**" : Text)] ++ lines.map (fun (l : Text) => " * " ++ l) ++ [(" */" : Text)]

def docParts (text : Text) : List Part := (docLines text).map line

def valueParts (site : Site) (given : Option Expr) (scope : Scope) : List Part :=
  if given.isSome then [.text " = ", .code site scope] else []

def paramParts (scope : Scope) (f : Function) : List Param → List Part
  | [] => []
  | [p] => .text (p.name ++ annotation c p.type) :: valueParts (.default f p) p.default scope
  | p :: q :: ps =>
    .text (p.name ++ annotation c p.type) :: valueParts (.default f p) p.default scope ++
      .text ", " :: paramParts scope f (q :: ps)

def functionParts (scope : Scope) (head : Text) (f : Function) : List Part :=
  docParts f.doc ++ .text (head ++ "(") :: paramParts c (scope.enter f.params) f f.params ++
    [line (")" ++ result c f.result ++ " \x7b"), .indent, .code (.body f) (scope.enter f.params), .dedent, line "\x7d"]

def methodParts (scope : Scope) (f : Function) : List Part :=
  functionParts c scope (if f.isStatic then "static " ++ f.name else f.name) f

def variableParts (scope : Scope) (head : Text) (v : Variable) : List Part :=
  docParts v.doc ++ .text (head ++ v.name ++ annotation c v.type) :: valueParts (.initial v) v.init scope ++ [line ";"]

def fieldParts (scope : Scope) (v : Variable) : List Part :=
  let head : Text :=
    match v.isStatic, v.isConst with
    | true, true => "static readonly "
    | true, false => "static "
    | false, true => "readonly "
    | false, false => []
  variableParts c scope head v

def constructorParts (scope : Scope) (isDerived : Bool) (f : Option Function) : List Part :=
  f.toList.flatMap (fun f => docParts f.doc) ++ [.text "constructor("] ++
    f.toList.flatMap (fun f => paramParts c (scope.enter f.params) f f.params) ++ [line ") \x7b", .indent] ++
    (if isDerived then [line "super();"] else []) ++
    f.toList.map (fun f => .code (.body f) (scope.enter f.params)) ++ [.dedent, line "\x7d"]

def separatedParts : Bool → List (List Part) → List Part
  | _, [] => []
  | isFirst, parts :: rest => (if isFirst then [] else [line []]) ++ parts ++ separatedParts false rest

def functionsParts (k : Class) : List (List Part) :=
  let scope : Scope := { members := k.qualifiers k.name }
  let isDerived := !k.superclass.isEmpty
  (if k.constructor?.isSome || isDerived then [constructorParts c scope isDerived k.constructor?] else []) ++
    (k.ordinaryMembers.filterMap Member.function?).map (methodParts c scope)

def classParts (k : Class) : List Part :=
  let scope : Scope := { members := k.qualifiers k.name }
  let fields := k.members.filterMap Member.variable?
  docParts k.doc ++ [line (classHeader c (typeName c) k), .indent] ++ fields.flatMap (fieldParts c scope) ++
    separatedParts fields.isEmpty (functionsParts c k) ++ [.dedent, line "\x7d"]

def interfaceMemberParts : Member → List Part
  | .function f =>
    docParts f.doc ++ .text (f.name ++ "(") :: paramParts c {} f f.params ++ [line (")" ++ result c f.result ++ ";")]
  | .variable v => docParts v.doc ++ [line (v.name ++ annotation c v.type ++ ";")]

def interfaceParts (i : Interface) : List Part :=
  docParts i.doc ++ [line (interfaceHeader c (typeName c) i), .indent] ++
    i.members.flatMap (interfaceMemberParts c) ++ [.dedent, line "\x7d"]

def declarationParts : Decl → List Part
  | .classDecl k => classParts c k
  | .interface i => interfaceParts c i
  | .member (.function f) => functionParts c {} (exported c ("function " ++ f.name)) f
  | .member (.variable v) => variableParts c {} (exported c (if v.isConst then "const " else "let ")) v

def fileParts : List Part :=
  match c.file.package with
  | some p => (head c p).map line ++ p.decls.flatMap fun d => .separate :: declarationParts c d
  | none => (c.unitName.toList.map fun (name : Text) => ("// Generated from " : Text) ++ name ++ ".").map line

section

variable (scope : Scope) (text head : Text) (f : Function) (v : Variable)

theorem doc_eq_lines : doc b text = b.lines (docLines text) := by
  unfold doc docLines
  split
  · rfl
  · generalize split '\n' text = lines
    rcases lines with _ | ⟨first, _ | ⟨second, rest⟩⟩
    · rfl
    · rfl
    · rw [Buffer.lines_append, Buffer.lines_append]
      rfl

theorem runAll_docParts : runAll (style c) c.body b (docParts text) = doc b text := by
  rw [docParts, runAll_lines, doc_eq_lines]

theorem runAll_paramParts (ps : List Param) :
    ∀ b, runAll (style c) c.body b (paramParts c scope f ps) = b.write (params c scope ps) := by
  have value : ∀ (p : Param) (b : Buffer),
      runAll (style c) c.body b (.text (p.name ++ annotation c p.type) :: valueParts (.default f p) p.default scope) =
        b.write (p.name ++ annotation c p.type ++ initializer c scope p.default) := by
    intro p b
    cases given : p.default <;> simp [valueParts, initializer, given, Buffer.write_append]
  induction ps with
  | nil => exact fun b => rfl
  | cons p ps ih =>
    intro b
    cases ps with
    | nil => simp [paramParts, value, params, join]
    | cons q qs =>
      have joined : params c scope (p :: q :: qs) =
          p.name ++ annotation c p.type ++ initializer c scope p.default ++ ", " ++ params c scope (q :: qs) := by
        simp [params, join]
      rw [paramParts, runAll_append, value, runAll_cons, ih, run_text, joined]
      simp only [Buffer.write_append]

theorem runAll_functionParts :
    runAll (style c) c.body b (functionParts c scope head f) = function c scope head b f := by
  simp [functionParts, function, runAll_docParts, runAll_paramParts, Buffer.line, Buffer.write_append]

theorem runAll_variableParts :
    runAll (style c) c.body b (variableParts c scope head v) = emitVariable c scope head b v := by
  cases given : v.init <;>
    simp [variableParts, emitVariable, runAll_docParts, valueParts, initializer, given, Buffer.line,
      Buffer.write_append]

theorem runAll_fieldParts :
    runAll (style c) c.body b (fieldParts c scope v) = field c scope b v := runAll_variableParts c b scope _ v

theorem runAll_constructorParts (isDerived : Bool) (f : Option Function) :
    runAll (style c) c.body b (constructorParts c scope isDerived f) = constructor c scope isDerived b f := by
  cases f <;> cases isDerived <;>
    simp [constructorParts, constructor, runAll_docParts, runAll_paramParts, Buffer.line, Buffer.write_append, params,
      join]

theorem runAll_separatedParts {parts : List (List Part)} :
    ∀ (isFirst : Bool) (b : Buffer), runAll (style c) c.body b (separatedParts isFirst parts) =
      separated isFirst b (parts.map fun ps b => runAll (style c) c.body b ps) := by
  induction parts with
  | nil => exact fun _ _ => rfl
  | cons ps parts ih =>
    intro isFirst b
    rw [separatedParts, runAll_append, ih]
    cases isFirst <;> rfl

theorem runAll_classParts (k : Class) : runAll (style c) c.body b (classParts c k) = classText c b k := by
  have fields := runAll_flatMap (style c) c.body (runAll_fieldParts c · { members := k.qualifiers k.name })
    (k.members.filterMap Member.variable?)
  have functions : (functionsParts c k).map (fun ps b => runAll (style c) c.body b ps) =
      (if k.constructor?.isSome || !k.superclass.isEmpty then
        [fun b => constructor c { members := k.qualifiers k.name } (!k.superclass.isEmpty) b k.constructor?]
      else []) ++ (k.ordinaryMembers.filterMap Member.function?).map fun f b =>
          method c { members := k.qualifiers k.name } b f := by
    rw [functionsParts, map_append, map_map]
    congr 1
    · split
      · simp [runAll_constructorParts]
      · rfl
    · refine map_congr_left fun f _ => funext fun b => ?_
      exact runAll_functionParts c b _ _ f
  rw [classParts, runAll_append, runAll_append, runAll_append, runAll_append, runAll_docParts, fields,
    runAll_separatedParts, functions]
  rfl

theorem runAll_interfaceMemberParts (m : Member) :
    runAll (style c) c.body b (interfaceMemberParts c m) = interfaceMember c b m := by
  rcases m with f | v <;>
    simp [interfaceMemberParts, interfaceMember, runAll_docParts, runAll_paramParts, Buffer.line, Buffer.write_append]

theorem runAll_declarationParts (d : Decl) : runAll (style c) c.body b (declarationParts c d) = declaration c b d := by
  cases d with
  | classDecl k => exact runAll_classParts c b k
  | interface i =>
    have members := runAll_flatMap (style c) c.body (runAll_interfaceMemberParts c) i.members
    rw [declarationParts, interfaceParts, runAll_append, runAll_append, runAll_append, runAll_docParts, members]
    rfl
  | member m =>
    rcases m with f | v
    · exact runAll_functionParts c b _ _ f
    · exact runAll_variableParts c b _ _ v

theorem runAll_fileParts : runAll (style c) c.body c.buffer (fileParts c) = file c := by
  unfold fileParts
  cases has : c.file.package with
  | none => simp only [runAll_lines, file, has]
  | some p =>
    rw [file_eq_foldl c has]
    simp only [runAll_append, runAll_lines]
    exact runAll_flatMap _ _ (fun b d => runAll_declarationParts c b.separate d) _ _

@[simp] theorem balanced_docParts : Balanced (docParts text) := balanced_lines _

end

@[simp] theorem balanced_valueParts (site : Site) (given : Option Expr) (scope : Scope) :
    Balanced (valueParts site given scope) := by
  cases given <;> exact fun n => rfl

variable (scope : Scope) {p : Package} {s : Text}

@[simp] theorem balanced_paramParts (f : Function) (ps : List Param) : Balanced (paramParts c scope f ps) := by
  intro n
  fun_induction paramParts c scope f ps <;> simp [depth, *]

@[simp] theorem balanced_functionParts (head : Text) (f : Function) : Balanced (functionParts c scope head f) := by
  intro n
  simp [functionParts, depth, line]

@[simp] theorem balanced_variableParts (head : Text) (v : Variable) : Balanced (variableParts c scope head v) := by
  intro n
  simp [variableParts, depth, line]

@[simp] theorem balanced_constructorParts (isDerived : Bool) (f : Option Function) :
    Balanced (constructorParts c scope isDerived f) := by
  intro n
  cases f <;> cases isDerived <;> simp [constructorParts, depth, line]

theorem balanced_separatedParts {parts : List (List Part)} (each : ∀ ps ∈ parts, Balanced ps) (isFirst : Bool) :
    Balanced (separatedParts isFirst parts) := by
  intro n
  induction parts generalizing isFirst with
  | nil => rfl
  | cons ps parts ih =>
    obtain ⟨here, rest⟩ := forall_mem_cons.mp each
    cases isFirst <;> simp [separatedParts, here n, ih rest, depth, line]

theorem balanced_declarationParts (d : Decl) : Balanced (declarationParts c d) := by
  intro n
  cases d with
  | classDecl k =>
    have functions : ∀ ps ∈ functionsParts c k, Balanced ps := by
      intro ps mem
      rcases mem_append.mp mem with first | rest
      · split at first
        · rw [mem_singleton.mp first]
          exact balanced_constructorParts c _ _ _
        · cases first
      · obtain ⟨f, _, rfl⟩ := mem_map.mp rest
        exact balanced_functionParts c _ _ f
    simp [declarationParts, classParts, fieldParts, balanced_separatedParts functions, depth, line]
  | interface i =>
    have members := balanced_flatMap (f := interfaceMemberParts c) (fun m n => by
      rcases m with f | v <;> simp [interfaceMemberParts, depth, line]) i.members
    simp [declarationParts, interfaceParts, members, depth, line]
  | member m =>
    rcases m with f | v
    · exact balanced_functionParts c _ _ f n
    · exact balanced_variableParts c _ _ v n

theorem head_prefix (has : c.file.package = some p) : unlines (head c p) <+: (file c).text := by
  rw [← runAll_fileParts, fileParts, has]
  exact unlines_prefix _ _ _ _ rfl rfl

theorem shows_header : ∀ {d : Decl}, s ∈ header c (typeName c) d → Shows (declarationParts c d) s
  | .classDecl k, line => by
    obtain rfl := Option.some.inj line
    exact ⟨_, _, balanced_docParts k.doc, by simp only [declarationParts, classParts, append_assoc]; rfl⟩
  | .interface i, line => by
    obtain rfl := Option.some.inj line
    exact ⟨_, _, balanced_docParts i.doc, by simp only [declarationParts, interfaceParts, append_assoc]; rfl⟩
  | .member _, line => by cases line

theorem file_shows_header {d : Decl} (has : c.file.package = some p) (mem : d ∈ p.decls)
    (line : s ∈ header c (typeName c) d) : (file c).Shows s := by
  rw [← runAll_fileParts, fileParts, has]
  exact (shows_file (balanced_declarationParts c) mem (shows_header c line) _).runAll _ _ rfl

end TypeScript

def Variable.sites (v : Variable) : List Site := if v.init.isSome then [.initial v] else []

def Function.defaultSites (f : Function) : List Site := (f.params.filter (·.default.isSome)).map (.default f)

def Function.sites (f : Function) : List Site := f.defaultSites ++ [.body f]

theorem Variable.mem_sites {v : Variable} {site : Site} : site ∈ v.sites ↔ v.init.isSome ∧ site = .initial v := by
  unfold sites
  split <;> rename_i given <;> simp [given]

def Site.within (scope : Scope) (s : Site) : Site × Scope := (s, scope)

namespace Part

def sites (parts : List Part) : List (Site × Scope) := parts.filterMap site?

section

variable (s : Text) (parts : List Part)

@[simp] theorem sites_nil : sites [] = [] := rfl

@[simp] theorem sites_append (more : List Part) : sites (parts ++ more) = sites parts ++ sites more :=
  filterMap_append

@[simp] theorem sites_text : sites (.text s :: parts) = sites parts := rfl

@[simp] theorem sites_line : sites (line s :: parts) = sites parts := rfl

@[simp] theorem sites_indent : sites (.indent :: parts) = sites parts := rfl

@[simp] theorem sites_dedent : sites (.dedent :: parts) = sites parts := rfl

end

@[simp] theorem sites_code (site : Site) (scope : Scope) (parts : List Part) :
    sites (.code site scope :: parts) = site.within scope :: sites parts := rfl

@[simp] theorem sites_map_line (texts : List Text) : sites (texts.map line) = [] := by
  induction texts with
  | nil => rfl
  | cons s texts ih => exact ih

theorem sites_flatMap {α : Type} (parts : α → List Part) (xs : List α) :
    sites (xs.flatMap parts) = xs.flatMap fun x => sites (parts x) := by
  rw [sites, filterMap_flatMap]
  rfl

end Part

namespace JavaScript

open ScriptBuild.Part

variable (c : EmitContext)

@[simp] theorem sites_docParts (lines : List Text) : sites (docParts c lines) = [] := sites_map_line _

theorem sites_defaultParts (scope : Scope) (f : Function) :
    sites (defaultParts scope f) = f.defaultSites.map (Site.within scope) := by
  rw [defaultParts, sites_flatMap, Function.defaultSites]
  induction f.params with
  | nil => rfl
  | cons p ps ih =>
    rw [flatMap_cons, ih, filter_cons]
    split <;> rfl

theorem sites_functionParts {p : Place} (inside : ∀ qname, p ≠ .interface qname) (f : Function) :
    sites (functionParts c p f) = f.sites.map (Site.within (Scope.enter { members := p.members } f.params)) := by
  cases p with
  | interface qname => exact absurd rfl (inside qname)
  | package name | classBody qname members => simp [functionParts, sites_defaultParts, Function.sites]

theorem sites_variableParts {p : Place} (inside : ∀ qname, p ≠ .interface qname) (v : Variable) :
    sites (variableParts c p v) = v.sites.map (Site.within { members := p.members }) := by
  cases p with
  | interface qname => exact absurd rfl (inside qname)
  | package name | classBody qname members => cases given : v.init <;> simp [variableParts, Variable.sites, given]

theorem sites_fieldParts (scope : Scope) (v : Variable) :
    sites (fieldParts c scope v) = v.sites.map (Site.within scope) := by
  cases given : v.init <;> simp [fieldParts, Variable.sites, given]

def memberSites (members : List (Text × Text)) : Member → List (Site × Scope)
  | .function f => f.sites.map (Site.within (Scope.enter { members } f.params))
  | .variable v => v.sites.map (Site.within { members })

theorem sites_memberParts {p : Place} (inside : ∀ qname, p ≠ .interface qname) (m : Member) :
    sites (memberParts c p m) = memberSites p.members m := by
  rcases m with f | v
  · exact sites_functionParts c inside f
  · exact sites_variableParts c inside v

/-- The initial values of fields stand in the constructor, and in its scope. -/
theorem sites_classParts (package : Text) (k : Class) : sites (classParts c package k) =
      (k.constructor?.toList.flatMap Function.defaultSites ++ (instanceFields k).flatMap Variable.sites ++
        k.constructor?.toList.map Site.body).map (Site.within (constructorScope package k)) ++
      (k.ordinaryMembers.filter fun m => !isInstanceField m).flatMap
        (memberSites (k.qualifiers (joinName package k.name))) := by
  have members : ∀ ms : List Member, sites (ms.flatMap fun m => line [] ::
        memberParts c (.classBody (joinName package k.name) (k.qualifiers (joinName package k.name))) m) =
      ms.flatMap (memberSites (k.qualifiers (joinName package k.name))) := by
    intro ms
    rw [sites_flatMap]
    refine congrArg (flatMap · ms) (funext fun m => ?_)
    exact sites_memberParts c (p := .classBody _ _) (fun _ same => nomatch same) m
  have perhaps : ∀ s : Text, sites (if (superclass c k).isEmpty then [] else [line s]) = [] := by
    intro s
    split <;> rfl
  rw [classParts, sites_append, members, constructorParts]
  simp only [sites_append, perhaps, sites_flatMap, sites_fieldParts, sites_defaultParts]
  cases k.constructor? <;> simp [map_flatMap]

theorem sites_interfaceParts (package : Text) (i : Interface) : sites (interfaceParts c package i) = [] := by
  have none : ∀ m, sites (memberParts c (.interface (joinName package i.name)) m) = [] := by
    rintro (f | v) <;> simp [memberParts, functionParts, variableParts]
  simp [interfaceParts, sites_flatMap, none]

end JavaScript

namespace TypeScript

open ScriptBuild.Part

variable (c : EmitContext)

@[simp] theorem sites_docParts (text : Text) : sites (docParts text) = [] := sites_map_line _

theorem sites_valueParts (site : Site) (given : Option Expr) (scope : Scope) :
    sites (valueParts site given scope) = if given.isSome then [site.within scope] else [] := by
  cases given <;> rfl

section

variable (scope : Scope) (head : Text) (f : Function)

theorem sites_paramParts (ps : List Param) : sites (paramParts c scope f ps) =
      ((ps.filter (·.default.isSome)).map (Site.default f)).map (Site.within scope) := by
  induction ps with
  | nil => rfl
  | cons p ps ih =>
    have one : sites (paramParts c scope f (p :: ps)) =
        sites (valueParts (.default f p) p.default scope) ++ sites (paramParts c scope f ps) := by
      cases ps <;> simp [paramParts]
    rw [one, ih, sites_valueParts, filter_cons]
    split <;> rfl

theorem sites_functionParts :
    sites (functionParts c scope head f) = f.sites.map (Site.within (scope.enter f.params)) := by
  simp [functionParts, sites_paramParts, Function.sites, Function.defaultSites]

theorem sites_variableParts (v : Variable) :
    sites (variableParts c scope head v) = v.sites.map (Site.within scope) := by
  cases given : v.init <;> simp [variableParts, sites_valueParts, Variable.sites, given]

theorem sites_constructorParts (isDerived : Bool) (f : Option Function) :
    sites (constructorParts c scope isDerived f) =
      f.toList.flatMap fun f => f.sites.map (Site.within (scope.enter f.params)) := by
  cases f <;> cases isDerived <;> simp [constructorParts, sites_paramParts, Function.sites, Function.defaultSites]

end

theorem sites_separatedParts (parts : List (List Part)) :
    ∀ isFirst, sites (separatedParts isFirst parts) = parts.flatMap sites := by
  induction parts with
  | nil => exact fun _ => rfl
  | cons ps parts ih =>
    intro isFirst
    cases isFirst <;> simp [separatedParts, ih]

/-- The initial values of fields stand outside all functions. -/
theorem sites_classParts (k : Class) : sites (classParts c k) =
      ((k.members.filterMap Member.variable?).flatMap Variable.sites).map
          (Site.within { members := k.qualifiers k.name }) ++
        (k.constructor?.toList ++ k.ordinaryMembers.filterMap Member.function?).flatMap fun f =>
          f.sites.map (Site.within (Scope.enter { members := k.qualifiers k.name } f.params)) := by
  have functions : (functionsParts c k).flatMap sites =
      (k.constructor?.toList ++ k.ordinaryMembers.filterMap Member.function?).flatMap fun f =>
        f.sites.map (Site.within (Scope.enter { members := k.qualifiers k.name } f.params)) := by
    rw [functionsParts, flatMap_append, flatMap_append, flatMap_map]
    congr 1
    · cases given : k.constructor? with
      | none => cases k.superclass.isEmpty <;> simp [sites_constructorParts]
      | some f => simp [sites_constructorParts]
    · exact congrArg (flatMap · _) (funext fun f => sites_functionParts c _ _ f)
  simp only [classParts, sites_append, sites_docParts, sites_flatMap, sites_separatedParts, functions, fieldParts,
    sites_variableParts]
  simp [map_flatMap]

end TypeScript

end ScriptBuild
