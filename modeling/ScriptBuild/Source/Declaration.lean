import ScriptBuild.Diagnostic
import ScriptBuild.Source.Signature

/-! Source files, line by line. -/

namespace ScriptBuild

open Text

namespace Declaration

/-- The lines of a block that ends with its `end`. Without a function they are dropped. -/
structure Capture where
  function : Option Function
  depth : Nat := 0
  /-- The last line first. -/
  lines : List SourceLine := []

structure OpenType where
  isInterface : Bool
  line : Nat
  name : Text
  superclass : Text := []
  interfaces : List Text := []
  doc : Text
  /-- The last member first. -/
  members : List Member := []

structure Reader where
  path : Text
  sawPackage : Bool := false
  line : Nat := 1
  name : Text := []
  imports : List Import := []
  decls : List Decl := []
  /-- Documentation that the next declaration takes. -/
  doc : List Text := []
  type : Option OpenType := none
  capture : Option Capture := none
  diagnostics : List Diagnostic := []

def OpenType.decl (t : OpenType) : Decl :=
  if t.isInterface then .interface ⟨t.line, t.name, t.interfaces, t.members.reverse, t.doc⟩
  else .classDecl ⟨t.line, t.name, t.superclass, t.interfaces, t.members.reverse, t.doc⟩

def OpenType.label (t : OpenType) : Text :=
  (if t.isInterface then "interface " else "class ") ++ t.name

namespace Reader

def report (r : Reader) (line : Nat) (message : Text) : Reader :=
  { r with diagnostics := .error .parse r.path line message :: r.diagnostics }

def docText (r : Reader) : Text := join "\n" r.doc.reverse

def addMember (r : Reader) (m : Member) : Reader :=
  match r.type with
  | some t => { r with type := some { t with members := m :: t.members } }
  | none => { r with decls := .member m :: r.decls }

def skipBlock (r : Reader) : Reader := { r with capture := some { function := none } }

/-- Takes the captured lines as the body of their function. -/
def closeCapture (r : Reader) (c : Capture) : Reader :=
  let r := { r with capture := none }
  match c.function with
  | none => r
  | some f => r.addMember (.function { f with body := some ⟨r.path, f.line, c.lines.reverse⟩ })

def captureLine (r : Reader) (c : Capture) (l : SourceLine) : Reader :=
  let word := (keyword (stripComment (trim l.text))).1
  let kept (depth : Nat) : Reader := { r with capture := some ⟨c.function, depth, l :: c.lines⟩ }
  if word == "if" || word == "while" then kept (c.depth + 1)
  else if word == "end" then
    match c.depth with
    | 0 => r.closeCapture c
    | depth + 1 => kept depth
  else kept c.depth

def addFunction (r : Reader) (line : Nat) (isStatic : Bool) (doc spec : Text) : Reader :=
  let isSignature := r.type.any (·.isInterface)
  match Signature.functionSpec line spec with
  | .error e =>
    let r := r.report line e.message
    if isSignature then r else r.skipBlock
  | .ok head =>
    let f : Function := ⟨line, head.name, head.params, head.result, isStatic, doc, none⟩
    if isSignature then r.addMember (.function f) else { r with capture := some { function := some f } }

def addVariable (r : Reader) (line : Nat) (isStatic isConst : Bool) (doc spec : Text) : Reader :=
  match Signature.variableSpec line spec with
  | .error e => r.report line e.message
  | .ok v => r.addMember (.variable { v with isStatic, isConst, doc })

def member (r : Reader) (line : Nat) (text : Text) : Reader :=
  let doc := r.docText
  let r := { r with doc := [] }
  let (word, rest) := keyword text
  let isStatic := word == "static"
  let (word, rest) := if isStatic then keyword rest else (word, rest)
  if word == "var" then r.addVariable line isStatic false doc rest
  else if word == "const" then r.addVariable line isStatic true doc rest
  else if word == "function" then r.addFunction line isStatic doc rest
  else r.report line ("unexpected " ++ quote word ++ " in declaration")

/-- Words of a class header after the name; `mode` is the last clause keyword. -/
def classWords (r : Reader) (t : OpenType) (mode : Text) : List Text → Reader
  | [] => { r with type := some t }
  | w :: ws =>
    if w == "extends" || w == "implements" then classWords r t w ws
    else if mode == "extends" && t.superclass.isEmpty then
      classWords r { t with superclass := w } mode ws
    else if mode == "implements" then
      classWords r { t with interfaces := t.interfaces ++ [w] } mode ws
    else
      classWords (r.report t.line ("unexpected " ++ quote w ++ " in class header")) t mode ws

def headerWords (header : Text) : List Text := words (replaceByte ',' ' ' header)

def classHeader (r : Reader) (line : Nat) (header : Text) : Reader :=
  match headerWords header with
  | [] => (r.report line "class needs a name").skipBlock
  | name :: words =>
    let t : OpenType := { isInterface := false, line, name, doc := r.docText }
    classWords { r with doc := [] } t [] words

def interfaceHeader (r : Reader) (line : Nat) (header : Text) : Reader :=
  match headerWords header with
  | [] => (r.report line "interface needs a name").skipBlock
  | name :: words =>
    let t : OpenType := { isInterface := true, line, name, doc := r.docText }
    let r := { r with doc := [] }
    match words with
    | [] => { r with type := some t }
    | word :: parents =>
      if word == "extends" then { r with type := some { t with interfaces := parents } }
      else
        { r.report line ("unexpected " ++ quote word ++ " in interface header") with
          type := some t }

def packageClause (r : Reader) (line : Nat) (name : Text) : Reader :=
  if r.sawPackage || !r.imports.isEmpty || !r.decls.isEmpty then
    r.report line "package clause must come first"
  else { r with sawPackage := true, name, line }

def importClause (r : Reader) (line : Nat) (name : Text) : Reader :=
  if name.isEmpty then r.report line "import needs a qualified name"
  else { r with imports := ⟨line, name⟩ :: r.imports }

def topLine (r : Reader) (line : Nat) (text : Text) : Reader :=
  let (word, rest) := keyword text
  if word == "package" then r.packageClause line rest
  else if word == "import" then r.importClause line rest
  else if word == "class" then r.classHeader line rest
  else if word == "interface" then r.interfaceHeader line rest
  else if word == "static" || word == "var" || word == "const" || word == "function" then
    r.member line text
  else r.report line ("unexpected " ++ quote word ++ " at top level")

def closeType (r : Reader) (t : OpenType) : Reader :=
  { r with type := none, decls := t.decl :: r.decls }

def significant (r : Reader) (number : Nat) (text : Text) : Reader :=
  match r.type with
  | some t => if text == "end" then r.closeType t else r.member number text
  | none => r.topLine number text

def step (r : Reader) (l : SourceLine) : Reader :=
  match r.capture with
  | some c => r.captureLine c l
  | none =>
    let text := trim l.text
    match dropPrefix? "///" text with
    | some doc => { r with doc := trim doc :: r.doc }
    | none =>
      if text.isEmpty || startsWith text "//" then r
      else r.significant l.number (stripComment text)

def finish (r : Reader) : Reader :=
  let r :=
    match r.capture with
    | none => r
    | some c =>
      match c.function with
      | none => r
      | some f => (r.report f.line ("missing end for function " ++ f.name)).closeCapture c
  match r.type with
  | none => r
  | some t => (r.report t.line ("missing end for " ++ t.label)).closeType t

def file (r : Reader) : SourceFile :=
  { line := 1, path := r.path
    package := some ⟨r.line, r.name, r.imports.reverse, r.decls.reverse⟩ }

end Reader

/-- The lines of a text, counted from `number`. A line may end with a carriage return as well. -/
def numbered (number : Nat) : List Text → List SourceLine
  | [] => []
  | text :: texts => ⟨number, text⟩ :: numbered (number + 1) texts

def sourceLines (content : Text) : List SourceLine :=
  numbered 1 (split '\n' (replaceAll "\r\n" "\n" content))

end Declaration

def SourceFile.parse (path content : Text) : SourceFile × List Diagnostic :=
  let r := ((Declaration.sourceLines content).foldl Declaration.Reader.step { path }).finish
  (r.file, r.diagnostics.reverse)

end ScriptBuild
