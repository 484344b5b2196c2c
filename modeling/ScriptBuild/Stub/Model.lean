import ScriptBuild.Diagnostic
import ScriptBuild.Stub.Doc
import ScriptBuild.Stub.Statement
import ScriptBuild.Text.Quoted

/-! The model of a corpus: every class and interface with its members, and the entries at top level. -/

namespace ScriptBuild

open Text

inductive ExternDecl where
  | namespace (name : Text)
  | type (entry : Entry) (superTypes interfaces : List Text)
  /-- `isDotted` says that the owner may be a class or a namespace. -/
  | entry (isDotted : Bool) (entry : Entry)

namespace ExternDecl

def isSpace (b : UInt8) : Bool := b == ' ' || b == '\t' || b == '\n' || b == '\r' || b == 12

def isWordByte (b : UInt8) : Bool := isAlpha b || isDigit b || b == '_' || b == '$'

def isNameByte (b : UInt8) : Bool := isWordByte b || b == '.'

/-- The parameter list in parentheses that a text begins with, blanks before it passed over. -/
def paramList? (s : Text) : Option Text :=
  match dropPrefix? "(" (s.dropWhile isSpace) with
  | none => none
  | some inner => (cut? ")" inner).map (·.1)

def functionDeclaration? (s : Text) : Option (Text × Text) :=
  match dropPrefix? "function" s with
  | none => none
  | some rest =>
    let afterBlanks := rest.dropWhile isSpace
    let name := afterBlanks.takeWhile isWordByte
    if afterBlanks.length == rest.length || name.isEmpty then none
    else (paramList? (afterBlanks.dropWhile isWordByte)).map fun params => (name, params)

def functionExpression? (s : Text) : Option Text :=
  (dropPrefix? "function" s).bind paramList?

/-- A text after `var`, `let` or `const` and the blanks that follow, if there are any. -/
def afterBinder? (s : Text) : Option Text :=
  ["var", "let", "const"].findSome? fun word =>
    match dropPrefix? (ofString word) s with
    | none => none
    | some rest =>
      let body := rest.dropWhile isSpace
      if body.length == rest.length then none else some body

def withBinder {α : Type} (parse : Text → Option α) (s : Text) : Option α :=
  ((afterBinder? s).bind parse).or (parse s)

def assignment? (s : Text) : Option (Text × Text) :=
  withBinder (fun s =>
    let name := s.takeWhile isNameByte
    if name.isEmpty then none
    else
      (dropPrefix? "=" ((s.dropWhile isNameByte).dropWhile isSpace)).map
        fun value => (name, trim value)) s

def bareName? (s : Text) : Option Text :=
  withBinder (fun s => if !s.isEmpty && s.all isNameByte then some s else none) s

/-- The parameters in a list with their documented types. Where there is no list, the documented
parameters are all there are. -/
def params (list : Text) (documented : List EntryParam) : List EntryParam :=
  if (trim list).isEmpty then documented
  else
    (((split ',' list).map trim).filter fun name => !name.isEmpty).map fun name =>
      (documented.reverse.find? fun p => p.name == name).getD { name }

def placed (e : Entry) (name : Text) (member top : EntryKind) : ExternDecl :=
  match cut? ".prototype." name with
  | some (owner, name) => .entry false { e with kind := member, owner, name }
  | none =>
    if name.contains '.' then
      let (owner, name) := splitName name
      .entry true { e with kind := member, owner, name, isStatic := true }
    else .entry false { e with kind := top, name }

def ofFunction (e : Entry) (name list : Text) (doc : ExternDoc) : ExternDecl :=
  let e := { e with params := params list doc.params, type := doc.result }
  if doc.isConstructor || doc.isInterface then
    .type { e with kind := if doc.isInterface then .interface else .classType, name } doc.superTypes
      doc.interfaces
  else placed e name .method .function

def ofProperty (e : Entry) (name : Text) (doc : ExternDoc) : ExternDecl :=
  let e := { e with type := doc.type }
  if doc.isTypedef then .entry false { e with kind := .typedef, name }
  else placed e name (if doc.isConstant then .constant else .field) .constant

def ofStatement? (file : Text) (s : ExternStatement) (text : Text) : Option ExternDecl :=
  let doc := ExternDoc.ofComment s.doc
  let e : Entry :=
    { kind := .classType, name := [], doc := join "\n" doc.text, file, line := s.line }
  match functionDeclaration? text with
  | some (name, list) => some (ofFunction e name list doc)
  | none =>
    match assignment? text with
    | some (name, value) =>
      match functionExpression? value with
      | some list => some (ofFunction e name list doc)
      | none =>
        if startsWith value "\x7b" && !doc.isTypedef && doc.type.isEmpty then
          some (.namespace name)
        else some (ofProperty e name doc)
    | none =>
      match bareName? text with
      | some name =>
        if !doc.params.isEmpty || !doc.result.isEmpty then some (ofFunction e name [] doc)
        else some (ofProperty e name doc)
      | none => none

def firstLine (s : Text) : Text :=
  match cut? "\n" s with
  | some (line, _) => line ++ " ..."
  | none => s

def isInert (text : Text) : Bool :=
  text.isEmpty || startsWith text "'use strict'" || startsWith text "\"use strict\""

def ofStatements (file : Text) : List ExternStatement → List ExternDecl × List Diagnostic
  | [] => ([], [])
  | s :: rest =>
    let (decls, diagnostics) := ofStatements file rest
    let text := trim (dropSuffix ";" s.text)
    if isInert text then (decls, diagnostics)
    else
      match ofStatement? file s text with
      | some decl => (decl :: decls, diagnostics)
      | none =>
        (decls, .warning .unrecognized file s.line
            ("unrecognized declaration " ++ quote (firstLine text)) :: diagnostics)

/-- The declarations of an externs file, and a warning for each statement of an unknown form. -/
def ofFile (file source : Text) : List ExternDecl × List Diagnostic :=
  ofStatements file (externStatements source)

end ExternDecl

structure ExternClass where
  entry : Entry
  superTypes : List Text
  interfaces : List Text
  fields : List Entry := []
  functions : List Entry := []
  constants : List Entry := []

namespace ExternClass

def name (c : ExternClass) : Text := c.entry.name

def isInterface (c : ExternClass) : Bool := c.entry.kind == .interface

def members (c : ExternClass) : List Entry := c.constants ++ c.fields ++ c.functions

def hasInstanceMembers (c : ExternClass) : Bool := c.members.any fun m => !m.isStatic

def member? (c : ExternClass) (name : Text) (isStatic : Bool) : Option Entry :=
  c.members.find? fun m => m.name == name && m.isStatic == isStatic

def add (c : ExternClass) (e : Entry) : ExternClass :=
  match e.kind with
  | .method => { c with functions := c.functions ++ [e] }
  | .constant => { c with constants := c.constants ++ [e] }
  | _ => { c with fields := c.fields ++ [e] }

end ExternClass

structure ExternModel where
  /-- In the order of their declarations. -/
  classes : List ExternClass := []
  typedefs : List Entry := []
  functions : List Entry := []
  constants : List Entry := []

namespace ExternModel

def class? (m : ExternModel) (name : Text) : Option ExternClass :=
  m.classes.find? fun c => c.name == name

def sortedClasses (m : ExternModel) : List ExternClass :=
  m.classes.mergeSort fun a b => ble a.name b.name

def topLevel (m : ExternModel) : List Entry := m.typedefs ++ m.functions ++ m.constants

def size (m : ExternModel) : Nat :=
  m.topLevel.length + (m.classes.map fun c => 1 + c.members.length).foldl (· + ·) 0

def duplicate (e first : Entry) : Diagnostic :=
  .warning .duplicate e.file e.line
    (e.kind.label ++ " " ++ e.qualifiedName ++ " already declared at " ++ first.file ++ ":" ++ ofNat first.line)

def ownerless (e : Entry) : Diagnostic :=
  .warning .unresolved e.file e.line
    (e.kind.label ++ " " ++ e.qualifiedName ++ " dropped: owner " ++ e.owner ++ " is not declared")

def addClass (m : ExternModel) (c : ExternClass) : ExternModel × List Diagnostic :=
  match m.class? c.name with
  | some first => (m, [duplicate c.entry first.entry])
  | none => ({ m with classes := m.classes ++ [c] }, [])

def addTopLevel (m : ExternModel) (e : Entry) : ExternModel :=
  match e.kind with
  | .typedef => { m with typedefs := m.typedefs ++ [e] }
  | .function => { m with functions := m.functions ++ [e] }
  | _ => { m with constants := m.constants ++ [e] }

def holder? (m : ExternModel) (name : Text) : Option Entry :=
  (m.topLevel.find? fun e => e.name == name).or ((m.class? name).map (·.entry))

def addMember (m : ExternModel) (e : Entry) : ExternModel :=
  { m with classes := m.classes.map fun c => if c.name == e.owner then c.add e else c }

def addEntry (m : ExternModel) (e : Entry) : ExternModel × List Diagnostic :=
  if e.kind == .typedef || !e.isMember then
    match m.holder? e.name with
    | some first => (m, [duplicate e first])
    | none => (m.addTopLevel e, [])
  else
    match m.class? e.owner with
    | none => (m, [ownerless e])
    | some c =>
      match c.member? e.name e.isStatic with
      | some first => (m, [duplicate e first])
      | none => (m.addMember e, [])

/-- A member of a namespace as the top-level entry it is. -/
def lifted (e : Entry) : Entry :=
  { e with
    name := e.qualifiedName
    owner := []
    isStatic := false
    kind := if e.kind == .method then .function else if e.kind == .field then .constant else e.kind }

/-- Settles whether the owner of a dotted name is a class or a namespace. -/
def settled (m : ExternModel) (namespaces : List Text) (isDotted : Bool) (e : Entry) : Entry :=
  if isDotted && (m.class? e.owner).isNone && namespaces.contains e.owner then lifted e else e

def classStep (s : ExternModel × List Diagnostic) : ExternDecl → ExternModel × List Diagnostic
  | .type entry superTypes interfaces =>
    let (m, ds) := s.1.addClass { entry, superTypes, interfaces }
    (m, s.2 ++ ds)
  | .namespace _ | .entry _ _ => s

def entryStep (namespaces : List Text) (s : ExternModel × List Diagnostic) : ExternDecl → ExternModel × List Diagnostic
  | .entry isDotted e =>
    let (m, ds) := s.1.addEntry (s.1.settled namespaces isDotted e)
    (m, s.2 ++ ds)
  | .namespace _ | .type _ _ _ => s

def namespacesOf (decls : List ExternDecl) : List Text :=
  decls.filterMap fun
    | .namespace name => some name
    | .type _ _ _ | .entry _ _ => none

/-- Classes and namespaces are known before any member is placed, so the order of declarations
in the corpus does not matter to owners. -/
def ofDecls (decls : List ExternDecl) : ExternModel × List Diagnostic :=
  decls.foldl (entryStep (namespacesOf decls)) (decls.foldl classStep ({}, []))

end ExternModel

end ScriptBuild
