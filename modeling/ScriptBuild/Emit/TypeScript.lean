import ScriptBuild.Emit.Unit

/-! TypeScript modules: one for each unit, with imports, class bodies and type annotations. -/

namespace ScriptBuild

open Text

namespace TypeScript

def primitives : Dictionary Text :=
  [("int", "number"), ("uint", "number"), ("float", "number"), ("Number", "number"),
    ("number", "number"), ("String", "string"), ("string", "string"), ("Boolean", "boolean"),
    ("boolean", "boolean"), ("bool", "boolean"), ("void", "void"), ("Object", "object"),
    ("Array", "any[]"), ("*", "any")]

def localName (qname : Text) : Text := ((cutLast? "." qname).map (·.2)).getD qname

def typeName (c : EmitContext) (t : Text) : Text :=
  if t.isEmpty then "any" else (primitives.find? t).getD (localName (c.qualify t))

/-- A type annotation; without a type there is one in strict mode only. -/
def annotation (c : EmitContext) (t : Text) : Text :=
  if t.isEmpty && !c.settings.isSet "strict" then [] else ": " ++ typeName c t

def declareLocal (c : EmitContext) (v : Variable) : Text :=
  let binder : Text := if v.isConst then "const " else "let "
  if v.type.isEmpty && v.init.isSome then binder ++ v.name
  else binder ++ v.name ++ annotation c v.type

def style (c : EmitContext) : ScriptStyle :=
  { declareLocal := declareLocal c, createdType := fun t => localName (c.qualify t) }

def exported (c : EmitContext) (s : Text) : Text := if c.settings.isSet "export" then "export " ++ s else s

def doc (b : Buffer) (text : Text) : Buffer :=
  if text.isEmpty then b
  else
    match split '\n' text with
    | [line] => b.line ("/** " ++ line ++ " */")
    | lines => ((b.line "/**").lines (lines.map fun (l : Text) => " * " ++ l)).line " */"

def initializer (c : EmitContext) (scope : Scope) (x : Option Expr) : Text :=
  match x with
  | some x => " = " ++ x.script (style c) scope
  | none => []

def params (c : EmitContext) (scope : Scope) (ps : List Param) : Text :=
  join ", " (ps.map fun p => p.name ++ annotation c p.type ++ initializer c scope p.default)

def result (c : EmitContext) (t : Text) : Text := if t.isEmpty then [] else ": " ++ typeName c t

def function (c : EmitContext) (scope : Scope) (head : Text) (b : Buffer) (f : Function) : Buffer :=
  let b := doc b f.doc
  let scope := scope.enter f.params
  let b := b.line (head ++ "(" ++ params c scope f.params ++ ")" ++ result c f.result ++ " \x7b")
  (Statement.emitBody (style c) scope b.indent (c.body f)).dedent.line "\x7d"

def method (c : EmitContext) (scope : Scope) (b : Buffer) (f : Function) : Buffer :=
  function c scope (if f.isStatic then "static " ++ f.name else f.name) b f

def emitVariable (c : EmitContext) (scope : Scope) (head : Text) (b : Buffer) (v : Variable) : Buffer :=
  (doc b v.doc).line (head ++ v.name ++ annotation c v.type ++ initializer c scope v.init ++ ";")

def field (c : EmitContext) (scope : Scope) (b : Buffer) (v : Variable) : Buffer :=
  let head : Text :=
    match v.isStatic, v.isConst with
    | true, true => "static readonly "
    | true, false => "static "
    | false, true => "readonly "
    | false, false => []
  emitVariable c scope head b v

def constructor (c : EmitContext) (scope : Scope) (isDerived : Bool) (b : Buffer) (f : Option Function) : Buffer :=
  let b :=
    match f with
    | some f => doc b f.doc
    | none => b
  let ps := (f.map (·.params)).getD []
  let scope := scope.enter ps
  let b := (b.line ("constructor(" ++ params c scope ps ++ ") \x7b")).indent
  let b := if isDerived then b.line "super();" else b
  let b :=
    match f with
    | some f => Statement.emitBody (style c) scope b (c.body f)
    | none => b
  b.dedent.line "\x7d"

/-- Writes the parts of a class, with an empty line between functions and before the first one if
there are fields. -/
def separated (isFirst : Bool) (b : Buffer) : List (Buffer → Buffer) → Buffer
  | [] => b
  | part :: parts => separated false (part (if isFirst then b else b.newline)) parts

def classText (c : EmitContext) (b : Buffer) (k : Class) : Buffer :=
  let scope : Scope := { members := k.qualifiers k.name }
  let superclass : Text :=
    if k.superclass.isEmpty then [] else " extends " ++ typeName c k.superclass
  let interfaces : Text :=
    if k.interfaces.isEmpty then []
    else " implements " ++ join ", " (k.interfaces.map (typeName c))
  let b := doc b k.doc
  let b := b.line (exported c ("class " ++ k.name) ++ superclass ++ interfaces ++ " \x7b")
  let fields := k.members.filterMap Member.variable?
  let b := fields.foldl (field c scope) b.indent
  let isDerived := !k.superclass.isEmpty
  let first :=
    if k.constructor?.isSome || isDerived then
      [fun b => constructor c scope isDerived b k.constructor?]
    else []
  let rest := (k.ordinaryMembers.filterMap Member.function?).map fun f b => method c scope b f
  (separated fields.isEmpty b (first ++ rest)).dedent.line "\x7d"

def interfaceMember (c : EmitContext) (b : Buffer) : Member → Buffer
  | .function f =>
    (doc b f.doc).line (f.name ++ "(" ++ params c {} f.params ++ ")" ++ result c f.result ++ ";")
  | .variable v => (doc b v.doc).line (v.name ++ annotation c v.type ++ ";")

def interface (c : EmitContext) (b : Buffer) (i : Interface) : Buffer :=
  let parents : Text :=
    if i.parents.isEmpty then [] else " extends " ++ join ", " (i.parents.map (typeName c))
  let b := (doc b i.doc).line (exported c ("interface " ++ i.name) ++ parents ++ " \x7b")
  (i.members.foldl (interfaceMember c) b.indent).dedent.line "\x7d"

def declaration (c : EmitContext) (b : Buffer) : Decl → Buffer
  | .classDecl k => classText c b k
  | .interface i => interface c b i
  | .member (.function f) => function c {} (exported c ("function " ++ f.name)) b f
  | .member (.variable v) => emitVariable c {} (exported c (if v.isConst then "const " else "let ")) b v

def memberTypes : Member → List Text
  | .function f => f.params.map (·.type) ++ [f.result]
  | .variable v =>
    v.type ::
      match v.init with
      | some (.create _ type _) => [type]
      | _ => []

def signatureTypes : Decl → List Text
  | .classDecl k => k.members.flatMap memberTypes
  | .interface i => i.members.flatMap memberTypes
  | .member m => memberTypes m

/-- The qualified names that a file refers to outside itself, sorted. -/
def imports (c : EmitContext) (p : Package) : List Text :=
  let own := (p.decls.map Decl.name).filter fun name => !name.isEmpty
  let referenced := (c.file.references.filter fun r => r.kind != .resource).map (·.name)
  let named := (referenced ++ p.decls.flatMap signatureTypes).filter fun name =>
    !name.isEmpty && !own.contains name && (primitives.find? name).isNone
  let qualified := (named.map c.qualify).filter fun q => q.contains '.' && !own.contains q
  sort (qualified.foldl addNew [])

/-- How many packages two paths share, the last part of the second being a name. -/
def commonLength : List Text → List Text → Nat
  | a :: s, b :: c :: t => if a == b then commonLength s (c :: t) + 1 else 0
  | _, _ => 0

def modulePath (package qname : Text) : Text :=
  let source := if package.isEmpty then [] else split '.' package
  let target := split '.' qname
  let common := commonLength source target
  let here : List Text := if common == source.length then ["."] else []
  join "/" (here ++ (source.drop common).map (fun _ => (".." : Text)) ++ target.drop common)

def importLine (package qname : Text) : Text :=
  "import \x7b " ++ localName qname ++ " \x7d from " ++ quote (modulePath package qname) ++ ";"

def package (c : EmitContext) (b : Buffer) (p : Package) : Buffer :=
  let b := b.lines ((imports c p).map (importLine p.name))
  p.decls.foldl (fun b d => declaration c (if b.size > 0 then b.newline else b) d) b

def file (c : EmitContext) : Buffer :=
  let b := c.buffer.lines (c.unitName.toList.map fun name => "// Generated from " ++ name ++ ".")
  match c.file.package with
  | some p => package c b p
  | none => b

end TypeScript

end ScriptBuild
