import ScriptBuild.Diagnostic
import ScriptBuild.Dictionary
import ScriptBuild.Text.LetterCase
import ScriptBuild.Tree.Basic
import ScriptBuild.Yaml.Compose
import ScriptBuild.Yaml.Decode

/-! Markup documents: YAML that describes one component class. -/

namespace ScriptBuild

open Text

namespace Markup

def propertyShape : Yaml.Shape :=
  .record "markup.property" [("name", .text), ("type", .text), ("value", .node)]

def childShape : Yaml.Shape := .ownRecord "markup.child" "markup.plain" [("id", .text), ("type", .text)]

def documentShape : Yaml.Shape :=
  .record "markup.document" [
    ("package", .text),
    ("class", .text),
    ("extends", .text),
    ("implements", .list .text),
    ("namespaces", .table .text),
    ("properties", .list propertyShape),
    ("children", .list childShape),
    ("resources", .list .text)]

structure Property where
  name : Text
  type : Text
  value : Option Yaml.Node

structure Child where
  line : Nat
  id : Text
  type : Text

structure Document where
  package : Text
  className : Text
  line : Nat
  superclass : Text
  interfaces : List Text
  namespaces : Dictionary Text
  properties : List Property
  children : List Child
  resources : List Text

def Property.ofValue (v : Yaml.Value) : Property :=
  { name := (v.field "name").toText
    type := (v.field "type").toText
    value := match v.field "value" with
      | .node n => some n
      | _ => none }

def Child.ofValue (v : Yaml.Value) : Child :=
  { line := match v with
      | .record line _ => line
      | _ => 0
    id := (v.field "id").toText
    type := (v.field "type").toText }

def keyLine (root : Option Yaml.Node) (key : Text) : Nat :=
  match root with
  | some (.mapping _ _ pairs) => ((pairs.find? fun (k, _) => k.value == key).map fun (k, _) => k.line).getD 1
  | _ => 1

def Document.ofValue (root : Option Yaml.Node) (v : Yaml.Value) : Document :=
  { package := (v.field "package").toText
    className := (v.field "class").toText
    line := keyLine root "class"
    superclass := (v.field "extends").toText
    interfaces := (v.field "implements").items.map Yaml.Value.toText
    namespaces := (v.field "namespaces").entries.map fun (k, x) => (k.toText, x.toText)
    properties := (v.field "properties").items.map Property.ofValue
    children := (v.field "children").items.map Child.ofValue
    resources := (v.field "resources").items.map Yaml.Value.toText }

def Document.parse (content : Text) : Except Yaml.Error Document := do
  let d ← Yaml.Document.parse content
  let v ← d.decode documentShape ((content.length + 8) * (content.length + 8))
  return .ofValue d.root v

/-- The number after the first `line ` of a message, or else 1. It may have a sign, and is refused if
it does not fit into 64 bits. -/
def messageLine (message : Text) : Int :=
  match cut? "line " message with
  | none => 1
  | some (_, rest) =>
    let rest := dropBlanks (blanks.filter (· != "\n")) rest.length rest
    let sign := (rest.take 1).filter fun (b : UInt8) => b == '+' || b == '-'
    let number := sign ++ (rest.drop sign.length).takeWhile isDigit
    match Integer.parseIn 10 number with
    | .ok 0 | .error _ => 1
    | .ok n => n

/-- The part before the colon of a name, if that is not a declared namespace. -/
def undeclared? (namespaces : Dictionary Text) (name : Text) : Option Text :=
  match cut? ":" name with
  | some (lead, _) => if (namespaces.find? lead).isNone then some lead else none
  | none => none

def literal (tag value : Text) : LiteralKind × Text :=
  if tag == "!!int" || tag == "!!float" then (.number, value)
  else if tag == "!!bool" then (.bool, lower value)
  else if tag == "!!null" then (.null, "null")
  else (.string, trimBytes (fun b => b == '"') value)

def Property.init (p : Property) : Option Expr :=
  match p.value with
  | some (.scalar line tag value) => some (.literal line (literal tag value).1 (literal tag value).2)
  | _ => none

def parseError (path : Text) (line : Int) (message : Text) : Diagnostic := .error .parse path line message

def undeclaredError (path : Text) (line : Int) (lead : Text) : Diagnostic :=
  parseError path line ("undeclared namespace prefix " ++ lead.quote)

def Property.member (path : Text) (p : Property) : Except Diagnostic Variable :=
  let line := (p.value.map Yaml.Node.line).getD 0
  if p.name.isEmpty then .error (parseError path line "property without a name")
  else .ok { line, name := p.name, type := p.type, init := p.init }

def Child.member (path : Text) (namespaces : Dictionary Text) (c : Child) : Except Diagnostic Variable :=
  if c.id.isEmpty || c.type.isEmpty then
    .error (parseError path c.line "child component needs an id and a type")
  else
    match undeclared? namespaces c.type with
    | some lead => .error (undeclaredError path c.line lead)
    | none => .ok { line := c.line, name := c.id, type := c.type, init := some (.create c.line c.type []) }

def oks {ε α : Type} (xs : List (Except ε α)) : List α := xs.filterMap Except.toOption

def errors {ε α : Type} (xs : List (Except ε α)) : List ε :=
  xs.filterMap fun
    | .error e => some e
    | .ok _ => none

def Document.members (d : Document) (path : Text) : List (Except Diagnostic Variable) :=
  d.properties.map (Property.member path) ++ d.children.map (Child.member path d.namespaces)

def Document.diagnostics (d : Document) (path : Text) : List Diagnostic :=
  ((d.superclass :: d.interfaces).filterMap (undeclared? d.namespaces)).map (undeclaredError path d.line) ++
    errors (d.members path)

def Document.toClass (d : Document) (path : Text) : Class :=
  { line := d.line
    name := d.className
    superclass := d.superclass
    interfaces := d.interfaces
    members := (oks (d.members path)).map .variable }

end Markup

def SourceFile.parseMarkup (path content : Text) : SourceFile × List Diagnostic :=
  let empty : SourceFile := { line := 1, path, package := some {} }
  match Markup.Document.parse content with
  | .error e => (empty, [Markup.parseError path (Markup.messageLine e.message) e.message])
  | .ok d =>
    if d.className.isEmpty then (empty, [Markup.parseError path 1 "markup document needs a class"])
    else
      ({ empty with
          package := some { name := d.package, decls := [.classDecl (d.toClass path)] }
          namespaces := d.namespaces
          resources := d.resources }, d.diagnostics path)

end ScriptBuild
