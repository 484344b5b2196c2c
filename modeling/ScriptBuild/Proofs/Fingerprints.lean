import ScriptBuild.Proofs.BuildAccounting
import ScriptBuild.Proofs.IncrementalBuild
import ScriptBuild.Proofs.ParseJournal
import ScriptBuild.Proofs.SharedTrees
import ScriptBuild.Proofs.StringValues

/-! Fingerprints stand for the contents of a unit and of its dependencies. -/

namespace ScriptBuild

open List Option Text

theorem CompilationUnit.parsed_parsed (d : Disk) (u : CompilationUnit) : (u.parsed d).parsed d = u.parsed d := by
  cases cell : u.cell with
  | idle => by_cases held : d.isHeld u.path <;> simp [parsed, cell, held]
  | started | finished r => simp [parsed, cell]

namespace Workspace

variable {w later : Workspace} {d : Disk} {id : UnitId} {ids : List UnitId}

/-- The digest of the content of a unit, empty if it has none. -/
def fileHash (w : Workspace) (d : Disk) (id : UnitId) : Text := ((w.tree d false id).1.map (·.fingerprint)).getD []

def dependencyHashes (w : Workspace) (d : Disk) (id : UnitId) : List Text :=
  (w.currentDependencies id).map (w.fileHash d)

/-- A workspace after some trees were asked for. -/
structure Asked (d : Disk) (w later : Workspace) : Prop where
  tree : ∀ id, (later.tree d false id).1 = (w.tree d false id).1
  dependencies : later.currentDependencies = w.currentDependencies
  path : later.unitPath = w.unitPath

theorem tree_eq_bind (w : Workspace) (d : Disk) (id : UnitId) :
    (w.tree d false id).1 = (w.unit? id).bind fun u => (u.parsed d).cell.result? := by
  have unit := w.unit?_startParse d id id
  cases found : w.unit? id with
  | none =>
    rw [found] at unit
    simp [tree, unit]
  | some u =>
    rw [found, map_some, if_pos rfl] at unit
    simp [tree_fst unit]

namespace Asked

theorem startParse (w : Workspace) (d : Disk) (k : UnitId) : Asked d w (w.startParse d k) := by
  refine ⟨fun id => ?_, w.currentDependencies_startParse d k, funext fun id => ?_⟩
  · rw [tree_eq_bind, tree_eq_bind, unit?_startParse]
    cases w.unit? id with
    | none => rfl
    | some u => by_cases same : k = id <;> simp [same, CompilationUnit.parsed_parsed]
  · rw [unitPath, unit?_startParse, unitPath]
    cases w.unit? id with
    | none => rfl
    | some u => by_cases same : k = id <;> simp [same, (u.keeps_parsed d).path]

theorem refl : Asked d w w := ⟨fun _ => rfl, rfl, rfl⟩

theorem trans {middle : Workspace} (first : Asked d w middle) (second : Asked d middle later) : Asked d w later :=
  ⟨fun id => (second.tree id).trans (first.tree id), second.dependencies.trans first.dependencies,
    second.path.trans first.path⟩

theorem fileHash (asked : Asked d w later) : later.fileHash d = w.fileHash d := by
  funext id
  rw [Workspace.fileHash, asked.tree, Workspace.fileHash]

end Asked

end Workspace

namespace Text

end Text

namespace Journal

end Journal

namespace Workspace

variable {w w' : Workspace} {d d' : Disk} {id id' : UnitId} {ids ids' : List UnitId}

/-- What is digested for the composite. -/
def joined (w : Workspace) (d : Disk) (id : UnitId) : Text :=
  join "|" (w.fileHash d id :: sort (w.dependencyHashes d id))

end Workspace

end ScriptBuild
