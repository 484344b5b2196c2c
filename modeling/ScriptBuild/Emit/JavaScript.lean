import ScriptBuild.Emit.Unit

/-! JavaScript with provided and required names, prototypes, and types in documentation comments. -/

namespace ScriptBuild

namespace JavaScript

def typeName (c : EmitContext) (t : Text) : Text :=
  if t.isEmpty || t == "*" then "*"
  else if t == "int" || t == "uint" || t == "float" || t == "Number" || t == "number" then "number"
  else if t == "String" || t == "string" then "string"
  else if t == "Boolean" || t == "boolean" || t == "bool" then "boolean"
  else if t == "void" || t == "Object" || t == "Array" || t == "Function" then t
  else c.qualify t

def style (c : EmitContext) : ScriptStyle :=
  { declareLocal := fun v => "var " ++ v.name, createdType := c.qualify }

def docText (doc : Text) : List Text := if doc.isEmpty then [] else Text.split '\n' doc

def tag (name value : Text) : Text := "@" ++ name ++ " " ++ value

def typeTag (name type : Text) : Text := tag name ("\x7b" ++ type ++ "\x7d")

def doc (c : EmitContext) (b : Buffer) (lines : List Text) : Buffer :=
  if !c.settings.isSet "jsdoc" || lines.isEmpty then b
  else
    ((b.line "/**").lines (lines.map fun (l : Text) =>
      if l.isEmpty then (" *" : Text) else " * " ++ l)).line " */"

def paramTags (c : EmitContext) (params : List Param) : List Text :=
  params.map fun p =>
    let mark : Text := if p.default.isSome then "=" else []
    tag "param" ("\x7b" ++ typeName c p.type ++ mark ++ "\x7d " ++ p.name)

def paramNames (params : List Param) : Text := Text.join ", " (params.map (·.name))

def defaults (c : EmitContext) (scope : Scope) (b : Buffer) (params : List Param) : Buffer :=
  b.lines (params.filterMap fun p =>
    p.default.map fun x =>
      p.name ++ " = " ++ p.name ++ " !== undefined ? " ++ p.name ++ " : " ++ x.script (style c) scope ++ ";")

/-- Where a member is assigned: in a package, in a class, or in an interface. -/
inductive Place where
  | package (name : Text)
  | classBody (qname : Text) (members : List (Text × Text))
  | interface (qname : Text)

def Place.members : Place → List (Text × Text)
  | .classBody _ members => members
  | .package _ | .interface _ => []

def Place.functionTarget (p : Place) (f : Function) : Text :=
  match p with
  | .package name => joinName name f.name
  | .classBody qname _ | .interface qname =>
    if f.isStatic then qname ++ "." ++ f.name else qname ++ ".prototype." ++ f.name

def function (c : EmitContext) (p : Place) (b : Buffer) (f : Function) : Buffer :=
  let result := if f.result.isEmpty then [] else [typeTag "return" (typeName c f.result)]
  let b := doc c b (docText f.doc ++ paramTags c f.params ++ result)
  let head := p.functionTarget f ++ " = function(" ++ paramNames f.params ++ ") \x7b"
  match p with
  | .interface _ => b.line (head ++ "\x7d;")
  | .package _ | .classBody _ _ =>
    let scope := Scope.enter { members := p.members } f.params
    let b := defaults c scope (b.line head).indent f.params
    (Statement.emitBody (style c) scope b (c.body f)).dedent.line "\x7d;"

def emitVariable (c : EmitContext) (p : Place) (b : Buffer) (v : Variable) : Buffer :=
  let const : List Text := if v.isConst then ["@const"] else []
  let b := doc c b (docText v.doc ++ const ++ [typeTag "type" (typeName c v.type)])
  let init : Text :=
    match v.init with
    | some x => " = " ++ x.script (style c) { members := p.members }
    | none => []
  match p with
  | .interface qname => b.line (qname ++ ".prototype." ++ v.name ++ ";")
  | .classBody qname _ => b.line (qname ++ "." ++ v.name ++ init ++ ";")
  | .package name => b.line (joinName name v.name ++ init ++ ";")

def member (c : EmitContext) (p : Place) (b : Buffer) : Member → Buffer
  | .function f => function c p b f
  | .variable v => emitVariable c p b v

def instanceField (c : EmitContext) (scope : Scope) (b : Buffer) (v : Variable) : Buffer :=
  let b := doc c b (docText v.doc ++ [typeTag "type" (typeName c v.type)])
  let init : Text :=
    match v.init with
    | some x => x.script (style c) scope
    | none => "null"
  b.line ("this." ++ v.name ++ " = " ++ init ++ ";")

def isInstanceField : Member → Bool
  | .variable v => !v.isStatic
  | .function _ => false

def instanceFields (k : Class) : List Variable :=
  (k.members.filterMap Member.variable?).filter fun v => !v.isStatic

def classDoc (c : EmitContext) (k : Class) (superclass : Text) (params : List Param) : List Text :=
  docText k.doc ++ [("@constructor" : Text)] ++ (if superclass.isEmpty then [] else [typeTag "extends" superclass]) ++
    (k.interfaces.map fun i => typeTag "implements" (c.qualify i)) ++ paramTags c params

def classText (c : EmitContext) (package : Text) (b : Buffer) (k : Class) : Buffer :=
  let qname := joinName package k.name
  let constructor := k.constructor?
  let params := (constructor.map (·.params)).getD []
  let superclass : Text := if k.superclass.isEmpty then [] else c.qualify k.superclass
  let members := k.qualifiers qname
  let scope := Scope.enter { members } params
  let b := doc c b (classDoc c k superclass params)
  let b := (b.line (qname ++ " = function(" ++ paramNames params ++ ") \x7b")).indent
  let b := defaults c scope b params
  let b := if superclass.isEmpty then b else b.line (qname ++ ".base(this, 'constructor');")
  let b := (instanceFields k).foldl (instanceField c scope) b
  let b :=
    match constructor with
    | some f => Statement.emitBody (style c) scope b (c.body f)
    | none => b
  let b := b.dedent.line "\x7d;"
  let b :=
    if superclass.isEmpty then b
    else b.line ("goog.inherits(" ++ qname ++ ", " ++ superclass ++ ");")
  (k.ordinaryMembers.filter fun m => !isInstanceField m).foldl
    (fun b m => member c (.classBody qname members) b.newline m) b

def interface (c : EmitContext) (package : Text) (b : Buffer) (i : Interface) : Buffer :=
  let qname := joinName package i.name
  let parents := i.parents.map fun x => typeTag "extends" (c.qualify x)
  let b := doc c b (docText i.doc ++ [("@interface" : Text)] ++ parents)
  let b := b.line (qname ++ " = function() \x7b\x7d;")
  i.members.foldl (fun b m => member c (.interface qname) b.newline m) b

def declaration (c : EmitContext) (package : Text) (b : Buffer) : Decl → Buffer
  | .classDecl k => classText c package b k
  | .interface i => interface c package b i
  | .member m => member c (.package package) b m

/-- The qualified names that a file needs, sorted, without those it provides. -/
def requires (c : EmitContext) (provided : List Text) : List Text :=
  let names := (c.file.references.filter fun r => r.kind != .resource).map fun r => c.qualify r.name
  Text.sort ((names.filter fun q => q.contains '.' && !provided.contains q).foldl Text.addNew [])

def provides (p : Package) : List Text :=
  ((p.decls.map Decl.name).filter fun name => !name.isEmpty).map (joinName p.name)

def package (c : EmitContext) (b : Buffer) (p : Package) : Buffer :=
  let b :=
    if !c.settings.isSet "closure_provides" then b
    else
      let provided := provides p
      let required := requires c provided
      let b := b.lines (provided.map fun q => "goog.provide('" ++ q ++ "');")
      if required.isEmpty then b
      else b.newline.lines (required.map fun q => "goog.require('" ++ q ++ "');")
  p.decls.foldl (fun b d => declaration c p.name (if b.size > 0 then b.newline else b) d) b

def file (c : EmitContext) : Buffer :=
  let overview := c.unitName.toList.map fun name => tag "fileoverview" ("Generated from " ++ name ++ ".")
  let b := doc c c.buffer overview
  match c.file.package with
  | some p => package c b p
  | none => b

end JavaScript

end ScriptBuild
