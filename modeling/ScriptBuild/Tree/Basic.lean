import ScriptBuild.Text.Basic

/-! The tree of one file: its package, the statements of function bodies, and expressions. -/

namespace ScriptBuild

inductive BinaryOp where
  | assign
  | or
  | and
  | eq
  | ne
  | lt
  | gt
  | le
  | ge
  | add
  | sub
  | mul
  | div
  | rem
  deriving DecidableEq

namespace BinaryOp

def text : BinaryOp → Text
  | .assign => "="
  | .or => "||"
  | .and => "&&"
  | .eq => "=="
  | .ne => "!="
  | .lt => "<"
  | .gt => ">"
  | .le => "<="
  | .ge => ">="
  | .add => "+"
  | .sub => "-"
  | .mul => "*"
  | .div => "/"
  | .rem => "%"

/-- Operators with a greater precedence bind tighter. -/
def precedence : BinaryOp → Nat
  | .assign => 1
  | .or => 2
  | .and => 3
  | .eq | .ne => 4
  | .lt | .gt | .le | .ge => 5
  | .add | .sub => 6
  | .mul | .div | .rem => 7

/-- Assignments group to the right, all other operators to the left. -/
def groupsRight (op : BinaryOp) : Bool := op == .assign

end BinaryOp

inductive UnaryOp where
  | neg
  | not
  deriving DecidableEq

def UnaryOp.text : UnaryOp → Text
  | .neg => "-"
  | .not => "!"

inductive LiteralKind where
  | number
  | string
  | bool
  | null
  deriving DecidableEq

inductive Expr where
  | ident (line : Nat) (name : Text)
  | literal (line : Nat) (kind : LiteralKind) (value : Text)
  | binary (line : Nat) (op : BinaryOp) (left right : Expr)
  | unary (line : Nat) (op : UnaryOp) (operand : Expr)
  | call (line : Nat) (callee : Expr) (args : List Expr)
  | member (line : Nat) (base : Expr) (name : Text)
  | create (line : Nat) (type : Text) (args : List Expr)

structure Variable where
  line : Nat
  name : Text
  type : Text
  isStatic : Bool := false
  isConst : Bool := false
  init : Option Expr := none
  doc : Text := []

inductive Statement where
  | variable (line : Nat) (var : Variable)
  | expression (line : Nat) (expr : Expr)
  | result (line : Nat) (value : Option Expr)
  | ifThen (line : Nat) (condition : Expr) (yes : List Statement)
  | ifThenElse (line : Nat) (condition : Expr) (yes no : List Statement)
  | loop (line : Nat) (condition : Expr) (body : List Statement)

structure Block where
  line : Nat
  statements : List Statement

structure SourceLine where
  number : Nat
  text : Text
  deriving DecidableEq

structure Body where
  file : Text
  line : Nat
  lines : List SourceLine

structure Param where
  name : Text
  type : Text
  default : Option Expr

/-- A method, constructor, free function or, without a body, a signature. -/
structure Function where
  line : Nat
  name : Text
  params : List Param
  result : Text
  isStatic : Bool
  doc : Text
  body : Option Body

inductive Member where
  | function (f : Function)
  | variable (v : Variable)

structure Class where
  line : Nat
  name : Text
  superclass : Text := []
  interfaces : List Text := []
  members : List Member := []
  doc : Text := []

structure Interface where
  line : Nat
  name : Text
  parents : List Text
  members : List Member
  doc : Text

inductive Decl where
  | classDecl (c : Class)
  | interface (i : Interface)
  | member (m : Member)

structure Import where
  line : Nat
  name : Text

structure Package where
  line : Nat := 1
  name : Text := []
  imports : List Import := []
  decls : List Decl := []

structure SourceFile where
  line : Nat
  path : Text
  package : Option Package
  /-- The namespace that each prefix of a component name stands for. -/
  namespaces : List (Text × Text) := []
  resources : List Text := []

def Member.name : Member → Text
  | .function f => f.name
  | .variable v => v.name

def Decl.name : Decl → Text
  | .classDecl c => c.name
  | .interface i => i.name
  | .member m => m.name

namespace SourceFile

/-- The tree of a file in which nothing was parsed. -/
def empty (path : Text) : SourceFile := { line := 0, path, package := none }

def decls (f : SourceFile) : List Decl :=
  match f.package with
  | none => []
  | some p => p.decls

def types (f : SourceFile) : List Decl :=
  f.decls.filter fun
    | .classDecl _ | .interface _ => true
    | .member _ => false

end SourceFile

inductive ReferenceKind where
  | imported
  | extended
  | implemented
  | component
  | resource
  deriving DecidableEq

def ReferenceKind.label : ReferenceKind → Text
  | .imported => "import"
  | .extended => "extends"
  | .implemented => "implements"
  | .component => "component"
  | .resource => "resource"

def ReferenceKind.all : List ReferenceKind := [.imported, .extended, .implemented, .component, .resource]

structure Reference where
  name : Text
  kind : ReferenceKind
  line : Nat

namespace Reference

def isNamespaced (r : Reference) : Bool := r.name.contains ':'

def ofImport (i : Import) : Reference := ⟨i.name, .imported, i.line⟩

def ofParents : Decl → List Reference
  | .classDecl c =>
    ⟨c.superclass, .extended, c.line⟩ :: c.interfaces.map fun name => ⟨name, .implemented, c.line⟩
  | .interface i => i.parents.map fun name => ⟨name, .extended, i.line⟩
  | .member _ => []

def ofComponent : Member → Option Reference
  | .variable v => if v.type.contains ':' then some ⟨v.type, .component, v.line⟩ else none
  | .function _ => none

def ofComponents : Decl → List Reference
  | .classDecl c => c.members.filterMap ofComponent
  | .interface _ | .member _ => []

/-- Every name as it occurs, with repetitions and empty names. -/
def occurrences (f : SourceFile) : List Reference :=
  (match f.package with
    | none => []
    | some p =>
      p.imports.map ofImport ++ p.decls.flatMap ofParents ++ p.decls.flatMap ofComponents) ++
  f.resources.map fun name => ⟨name, .resource, 0⟩

/-- Keeps the first reference for each name that is not empty and not in `seen`. -/
def firstOf : List Text → List Reference → List Reference
  | _, [] => []
  | seen, r :: rs =>
    if r.name.isEmpty || seen.contains r.name then firstOf seen rs
    else r :: firstOf (r.name :: seen) rs

end Reference

def SourceFile.references (f : SourceFile) : List Reference :=
  Reference.firstOf [] (Reference.occurrences f)

end ScriptBuild
