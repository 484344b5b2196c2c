import ScriptBuild.Digest.Sha256
import ScriptBuild.Markup.Document
import ScriptBuild.Source.Declaration
import ScriptBuild.Workspace.Basic

/-! Trees of units: a version of a unit is parsed once, when its tree is first asked for. -/

namespace ScriptBuild

def UnitKind.parse (kind : UnitKind) (path content : Text) : SourceFile × List Diagnostic :=
  match kind with
  | .source => SourceFile.parse path content
  | .markup => SourceFile.parseMarkup path content
  | .resource => (SourceFile.empty path, [])

namespace Workspace

def readFailure (path : Text) (e : DiskError) : Diagnostic :=
  if e.isMissing then .error .missingFile path 0 (path ++ " does not exist.")
  else .error .failedAccess path 0 ("read: " ++ e.message)

def parseUnit (d : Disk) (u : CompilationUnit) (version : Nat) : SyntaxResult × Bool :=
  match d.read u.path with
  | .error e => (⟨SourceFile.empty u.path, [readFailure u.path e], version, []⟩, false)
  | .ok content =>
    let (file, diagnostics) := u.spec.kind.parse u.path content
    (⟨file, diagnostics, version, sha256 content⟩, true)

/-- Finishes the parse of a version of a unit. Its result is kept unless the unit has moved on. -/
def finishParse (w : Workspace) (d : Disk) (id : UnitId) (version : Nat) : Workspace :=
  match w.unit? id with
  | none => w
  | some u =>
    let (result, counted) := parseUnit d u version
    let w := { w with parses := if counted then w.parses + 1 else w.parses }
    w.update id fun u => if u.version == version then { u with cell := .finished result } else u

def startParse (w : Workspace) (d : Disk) (id : UnitId) : Workspace :=
  match w.unit? id with
  | none => w
  | some u =>
    match u.cell with
    | .started | .finished _ => w
    | .idle =>
      if d.isHeld u.path then
        { w.update id (fun u => { u with cell := .started }) with
          waiting := w.waiting ++ [(id, u.version)] }
      else w.finishParse d id u.version

def finishWaiting (w : Workspace) (d : Disk) : Workspace :=
  w.waiting.foldl (fun w (id, version) => w.finishParse d id version) { w with waiting := [] }

/-- The tree of a unit; there is none if the request is canceled or the file is held. -/
def tree (w : Workspace) (d : Disk) (canceled : Bool) (id : UnitId) : Option SyntaxResult × Workspace :=
  let w := w.startParse d id
  if canceled then (none, w)
  else
    match w.unit? id with
    | some { cell := .finished r, .. } => (some r, w)
    | _ => (none, w)

/-- Reads a file again and invalidates its units if the content is not what they were parsed from. A new file
invalidates units with names that were not found. -/
def refresh (w : Workspace) (d : Disk) (path : Text) : List UnitId × Workspace :=
  let content := (d.read path).toOption
  let fingerprint : Text := (content.map sha256).getD []
  let known := w.atPath path
  if known.any fun id => (w.unit? id).any fun u => u.fingerprint != fingerprint then
    w.invalidate path
  else if known.isEmpty && content.isSome then
    let owners := w.owners.filter fun p => (w.describe p path).isSome
    let affected := w.closure (owners.flatMap w.unresolved)
    (w.sortByPath affected, w.invalidateAll affected)
  else ([], w)

end Workspace

structure Fingerprint where
  file : Text
  /-- Sorted. -/
  dependencies : List Text
  composite : Text

namespace Workspace

def composite (file : Text) (dependencies : List Text) : Text :=
  sha256 (Text.join "|" (file :: dependencies))

/-- The digest of a file, which is asked for once and then known. `none` means canceled. -/
def fileDigest (w : Workspace) (d : Disk) (canceled : Bool) (known : List (UnitId × Text)) (id : UnitId) :
    Option (Text × List (UnitId × Text)) × Workspace :=
  match known.lookup id with
  | some digest => (some (digest, known), w)
  | none =>
    let (result, w) := w.tree d canceled id
    (result.map fun r => (r.fingerprint, (id, r.fingerprint) :: known), w)

def fileDigests (w : Workspace) (d : Disk) (canceled : Bool) (known : List (UnitId × Text)) :
    List UnitId → Option (List Text × List (UnitId × Text)) × Workspace
  | [] => (some ([], known), w)
  | id :: ids =>
    match w.fileDigest d canceled known id with
    | (none, w) => (none, w)
    | (some (digest, known), w) =>
      match w.fileDigests d canceled known ids with
      | (none, w) => (none, w)
      | (some (digests, known), w) => (some (digest :: digests, known), w)

def currentDependencies (w : Workspace) (id : UnitId) : List UnitId :=
  match w.unit? id with
  | some u => if u.isResolved then u.dependencies else []
  | none => []

/-- Adds the fingerprints of units to a table by their paths. -/
def addFingerprints (w : Workspace) (d : Disk) (canceled : Bool) (known : List (UnitId × Text))
    (table : Dictionary Fingerprint) : List UnitId → Option (Dictionary Fingerprint) × Workspace
  | [] => (some table, w)
  | id :: ids =>
    match w.fileDigest d canceled known id with
    | (none, w) => (none, w)
    | (some (file, known), w) =>
      match w.fileDigests d canceled known (w.currentDependencies id) with
      | (none, w) => (none, w)
      | (some (digests, known), w) =>
        let sorted := Text.sort digests
        w.addFingerprints d canceled known
          (table.insert (w.unitPath id) ⟨file, sorted, composite file sorted⟩) ids

/-- The fingerprints of units by their paths, with the dependencies that are recorded. -/
def fingerprints (w : Workspace) (d : Disk) (canceled : Bool) (ids : List UnitId) :
    Option (Dictionary Fingerprint) × Workspace :=
  w.addFingerprints d canceled [] [] ids

end Workspace

end ScriptBuild
