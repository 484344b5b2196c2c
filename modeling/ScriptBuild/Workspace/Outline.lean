import ScriptBuild.Project.Plan
import ScriptBuild.Source.Outline

/-! Units, plans and fingerprints as JSON values, for inspection. -/

namespace ScriptBuild

def UnitSpec.toJson (s : UnitSpec) : Json :=
  .object [("kind", .string s.kind.label), ("names", .strings [s.name]), ("library", .bool s.isLibrary)]

def Fingerprint.toJson (f : Fingerprint) : Json :=
  .object [("file", .string f.file), ("deps", .strings f.dependencies), ("composite", .string f.composite)]

def Package.outline (p : Package) : Json :=
  .object [("name", .string p.name), ("decls", .strings (p.decls.map Decl.name))]

def SyntaxResult.toJson (r : SyntaxResult) : Json :=
  .object [("version", .nat r.version), ("fingerprint", .string r.fingerprint), ("has_errors", .bool r.hasErrors),
    ("diagnostics", Diagnostic.listJson r.diagnostics), ("package", Outline.option Package.outline r.file.package)]

namespace Workspace

def unitName (w : Workspace) (id : UnitId) : Text := ((w.unit? id).map (·.spec.name)).getD []

def projectName (w : Workspace) (id : UnitId) : Text :=
  (((w.unit? id).bind fun u => w.project? u.project).map (·.name)).getD []

def sortByPlace (w : Workspace) (ids : List UnitId) : List UnitId :=
  ids.mergeSort fun a b =>
    if w.unitPath a == w.unitPath b then Text.ble (w.projectName a) (w.projectName b)
    else Text.ble (w.unitPath a) (w.unitPath b)

def unitJson (w : Workspace) (id : UnitId) : Json :=
  Outline.option (fun u => .object [("path", .string u.path), ("names", .strings [u.spec.name]),
    ("kind", .string u.spec.kind.label), ("library", .bool u.spec.isLibrary), ("version", .nat u.version),
    ("project", .string (w.projectName id))]) (w.unit? id)

def planFields (w : Workspace) (p : BuildPlan) : List (Text × Json) :=
  [("root", .string (w.unitName p.root)), ("reachable", .strings (p.reachable.map w.unitName)),
    ("emit", .strings (p.emitted.map w.unitName))]

/-- The units at some paths, made on first request, or the first path without one. -/
def requestAll (w : Workspace) (d : Disk) (p : ProjectId) : List Text → Except Text (List UnitId) × Workspace
  | [] => (.ok [], w)
  | path :: rest =>
    match w.request p (d.absolute path) with
    | (none, w) => (.error path, w)
    | (some id, w) =>
      let (ids, w) := w.requestAll d p rest
      (ids.map (id :: ·), w)

end Workspace

end ScriptBuild
