import ScriptBuild.Json.Basic
import ScriptBuild.Stub.Model

/-! Externs as JSON values, for inspection. -/

namespace ScriptBuild

def EntryParam.toJson (p : EntryParam) : Json :=
  .object [("name", .string p.name), ("type", .string p.type), ("optional", .bool p.isOptional),
    ("rest", .bool p.isRest)]

namespace Entry

def fields (e : Entry) : List (Text × Json) :=
  [("kind", .string e.kind.label), ("owner", .string e.owner), ("name", .string e.name),
    ("qname", .string e.qualifiedName), ("static", .bool e.isStatic), ("type", .string e.type),
    ("doc", .string e.doc), ("file", .string e.file), ("line", .nat e.line), ("dir", .string e.kind.directory),
    ("params", .array (e.params.map EntryParam.toJson))]

def toJson (e : Entry) : Json := .object e.fields

def listJson (es : List Entry) : Json := .array (es.map toJson)

end Entry

def ExternClass.toJson (c : ExternClass) : Json :=
  let own : List (Text × Json) :=
    [("extends", .strings c.superTypes), ("implements", .strings c.interfaces), ("members", Entry.listJson c.members),
      ("instance", .bool c.hasInstanceMembers)]
  .object (c.entry.fields ++ own)

def ExternModel.toJson (m : ExternModel) : Json :=
  .object [("classes", .array (m.sortedClasses.map ExternClass.toJson)), ("typedefs", Entry.listJson m.typedefs),
    ("functions", Entry.listJson m.functions), ("constants", Entry.listJson m.constants), ("len", .nat m.size)]

end ScriptBuild
