import ScriptBuild.Json.Basic
import ScriptBuild.Source.Block

/-! Trees as JSON values, for inspection. -/

namespace ScriptBuild

namespace Outline

def node (tag : Text) (line : Nat) (fields : List (Text × Json)) : Json :=
  .object (("t", .string tag) :: ("line", .nat line) :: fields)

def option {α : Type} (f : α → Json) : Option α → Json
  | none => .null
  | some x => f x

end Outline

open Outline

def Diagnostic.toJson (d : Diagnostic) : Json :=
  .object [("kind", .string d.kind.label), ("severity", .string d.severity.label), ("file", .string d.file),
    ("line", .int d.line), ("message", .string d.message)]

def Diagnostic.listJson (ds : List Diagnostic) : Json := .array (ds.map toJson)

def LiteralKind.label : LiteralKind → Text
  | .number => "number"
  | .string => "string"
  | .bool => "bool"
  | .null => "null"

mutual

def Expr.toJson : Expr → Json
  | .ident line name => node "Ident" line [("name", .string name)]
  | .literal line kind value => node "Literal" line [("kind", .string kind.label), ("value", .string value)]
  | .binary line op x y =>
    node "Binary" line [("op", .string op.text), ("x", Expr.toJson x), ("y", Expr.toJson y)]
  | .unary line op x => node "Unary" line [("op", .string op.text), ("x", Expr.toJson x)]
  | .call line f args => node "Call" line [("fun", Expr.toJson f), ("args", .array (Expr.listJson args))]
  | .member line x name => node "Member" line [("x", Expr.toJson x), ("name", .string name)]
  | .create line type args => node "New" line [("type", .string type), ("args", .array (Expr.listJson args))]

def Expr.listJson : List Expr → List Json
  | [] => []
  | x :: rest => Expr.toJson x :: Expr.listJson rest

end

def Variable.toJson (v : Variable) : Json :=
  node "Variable" v.line [("name", .string v.name), ("type", .string v.type), ("static", .bool v.isStatic),
    ("const", .bool v.isConst), ("init", option Expr.toJson v.init), ("doc", .string v.doc)]

mutual

def Statement.toJson : Statement → Json
  | .variable line v => node "VarStmt" line [("var", v.toJson)]
  | .expression line x => node "ExprStmt" line [("x", x.toJson)]
  | .result line x => node "ReturnStmt" line [("value", option Expr.toJson x)]
  | .ifThen line c yes =>
    node "IfStmt" line [("cond", c.toJson), ("then", blockJson line yes), ("else", .null)]
  | .ifThenElse line c yes no =>
    node "IfStmt" line [("cond", c.toJson), ("then", blockJson line yes), ("else", blockJson line no)]
  | .loop line c body => node "WhileStmt" line [("cond", c.toJson), ("body", blockJson line body)]

def blockJson (line : Nat) : List Statement → Json
  | statements => node "Block" line [("stmts", .array (statementsJson statements))]

def statementsJson : List Statement → List Json
  | [] => []
  | s :: rest => Statement.toJson s :: statementsJson rest

end

def SourceLine.toJson (l : SourceLine) : Json := .array [.nat l.number, .string l.text]

def Body.toJson (b : Body) : Json :=
  let (block, ds) := b.parse
  .object [("line", .nat b.line), ("lines", .array (b.lines.map SourceLine.toJson)),
    ("block", blockJson block.line block.statements), ("diagnostics", Diagnostic.listJson ds)]

def Param.toJson (p : Param) : Json :=
  .object [("name", .string p.name), ("type", .string p.type), ("default", option Expr.toJson p.default)]

def Member.toJson : Member → Json
  | .function f =>
    node "Function" f.line [("name", .string f.name), ("params", .array (f.params.map Param.toJson)),
      ("result", .string f.result), ("static", .bool f.isStatic), ("doc", .string f.doc),
      ("body", option Body.toJson f.body)]
  | .variable v => v.toJson

def Decl.toJson : Decl → Json
  | .classDecl c =>
    node "Class" c.line [("name", .string c.name), ("extends", .string c.superclass),
      ("implements", .strings c.interfaces), ("members", .array (c.members.map Member.toJson)), ("doc", .string c.doc)]
  | .interface i =>
    node "Interface" i.line [("name", .string i.name), ("extends", .strings i.parents),
      ("members", .array (i.members.map Member.toJson)), ("doc", .string i.doc)]
  | .member m => m.toJson

def Import.toJson (i : Import) : Json := .object [("name", .string i.name), ("line", .nat i.line)]

def Package.toJson (p : Package) : Json :=
  .object [("name", .string p.name), ("line", .nat p.line), ("imports", .array (p.imports.map Import.toJson)),
    ("decls", .array (p.decls.map Decl.toJson))]

def Reference.toJson (r : Reference) : Json :=
  .object [("name", .string r.name), ("kind", .string r.kind.label), ("line", .nat r.line),
    ("namespaced", .bool r.isNamespaced)]

def SourceFile.treeJson (f : SourceFile) : Json :=
  .object [("path", .string f.path), ("line", .nat f.line), ("package", option Package.toJson f.package),
    ("namespaces", .object (f.namespaces.map fun (name, uri) => (name, .string uri))),
    ("resources", .strings f.resources)]

def SourceFile.outline (f : SourceFile) (ds : List Diagnostic) : Json :=
  .object [("file", f.treeJson), ("diagnostics", Diagnostic.listJson ds),
    ("refs", .array (f.references.map Reference.toJson)), ("types", .strings (f.types.map fun d => d.name))]

end ScriptBuild
