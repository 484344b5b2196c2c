import ScriptBuild.Artifact.FileTree
import ScriptBuild.Emit.Buffer
import ScriptBuild.Stub.Config
import ScriptBuild.Stub.Model
import ScriptBuild.Stub.TypeName

/-! A stub run: reads a corpus and writes a stub for every declaration that the policy keeps. -/

namespace ScriptBuild

namespace StubText

def defaultValue (type : Text) : Text :=
  if type == "Number" then "NaN" else if type == "Boolean" then "false" else "null"

def param (p : EntryParam) : Text :=
  if p.isRest then "..." ++ p.name
  else
    let type := TypeName.stub p.type
    if p.isOptional then p.name ++ ":" ++ type ++ " = " ++ defaultValue type
    else p.name ++ ":" ++ type

def params (ps : List EntryParam) : Text := Text.join ", " (ps.map param)

def body (result : Text) : Text :=
  if result == "void" then "\x7b\x7d"
  else if result == "Number" then "\x7b return 0; \x7d"
  else if result == "Boolean" then "\x7b return false; \x7d"
  else "\x7b return null; \x7d"

def signature (e : Entry) : Text :=
  let result := TypeName.result e.type
  "(" ++ params e.params ++ "):" ++ result ++ " " ++ body result

def member (e : Entry) (inInterface : Bool) : Text :=
  if inInterface then
    if e.kind == .method then
      "function " ++ e.name ++ "(" ++ params e.params ++ "):" ++ TypeName.result e.type ++ ";"
    else "function get " ++ e.name ++ "():" ++ TypeName.stub e.type ++ ";"
  else
    let access : Text := if e.isStatic then "public static " else "public "
    match e.kind with
    | .method => access ++ "function " ++ e.name ++ signature e
    | .constant => access ++ "const " ++ e.name ++ ":" ++ TypeName.stub e.type ++ ";"
    | _ => access ++ "var " ++ e.name ++ ":" ++ TypeName.stub e.type ++ ";"

def doc (b : Buffer) (text : Text) : Buffer :=
  if text.isEmpty then b
  else
    let lines := (Text.split '\n' text).map fun (l : Text) =>
      if l.isEmpty then (" *" : Text) else " * " ++ l
    ((b.line "/**").lines lines).line " */"

def openPackage (package : Text) : Buffer :=
  ({ unit := "    " } : Buffer).line
    (if package.isEmpty then "package \x7b" else "package " ++ package ++ " \x7b")

def classHeader (c : ExternClass) (name : Text) : Text :=
  let names (word : Text) (list : List Text) : Text :=
    if list.isEmpty then [] else word ++ Text.join ", " list
  if c.isInterface then "public interface " ++ name ++ names " extends " c.superTypes ++ " \x7b"
  else
    "public class " ++ name ++ names " extends " (c.superTypes.take 1) ++ names " implements " c.interfaces ++ " \x7b"

def classMember (policy : ExclusionPolicy) (inInterface : Bool) (b : Buffer) (e : Entry) : Buffer :=
  match policy.rule? e with
  | some rule => b.line (ExclusionRule.placeholder (some rule) (member e inInterface))
  | none => (doc b e.doc).line (member e inInterface)

def classText (policy : ExclusionPolicy) (c : ExternClass) (members : List Entry) : Text :=
  let (package, name) := splitName c.name
  let b := ((doc (openPackage package) c.entry.doc).line (classHeader c name)).indent
  let b :=
    if c.isInterface then b
    else b.line ("public function " ++ name ++ "(" ++ params c.entry.params ++ ") \x7b\x7d")
  ((members.foldl (classMember policy c.isInterface) b).dedent.write "\x7d\n\x7d\n").text

/-- A record becomes a class with its fields, any other type an empty class that names it. -/
def typedef (b : Buffer) (name type : Text) : Buffer :=
  let fields := TypeName.recordFields? type
  let b := if fields.isNone then b.line ("/** @typedef \x7b" ++ type ++ "\x7d */") else b
  let b := (b.line ("public class " ++ name ++ " \x7b")).indent
  let lines := (fields.getD []).map fun (field, type) =>
    "public var " ++ field ++ ":" ++ TypeName.stub type ++ ";"
  (b.lines lines).dedent.line "\x7d"

def topLevel (e : Entry) : Text :=
  let (package, name) := splitName e.name
  let b := doc (openPackage package) e.doc
  let b :=
    match e.kind with
    | .function => b.line ("public function " ++ name ++ signature e)
    | .typedef => typedef b name e.type
    | _ => b.line ("public const " ++ name ++ ":" ++ TypeName.stub e.type ++ ";")
  (b.line "\x7d").text

end StubText

inductive CorpusError where
  | canceled
  | missing (path : Text)
  | failed (action path : Text) (cause : DiskError)

namespace CorpusError

def message : CorpusError → Text
  | .canceled => "context canceled"
  | .missing path => "external file does not exist: " ++ path ++ " does not exist."
  | .failed action path cause => action ++ " " ++ path ++ ": " ++ cause.message

/-- A failed access to a path; the absence of what is there is told apart. -/
def ofDisk (action path : Text) (cause : DiskError) : CorpusError :=
  if cause.isMissing then .missing path else .failed action path cause

end CorpusError

namespace Corpus

/-- The files that one path of a corpus stands for: itself, or the scripts below it. -/
def filesOf (d : Disk) (path : Text) : Except CorpusError (List Text) :=
  match d.stat path with
  | .error e => .error (CorpusError.ofDisk "stat" path e)
  | .ok e =>
    if !e.isDirectory then .ok [path]
    else
      match d.filesBelow path with
      | .error e => .error (.failed "walk" path e)
      | .ok files => .ok (Text.sort (files.filter fun f => Text.endsWith f ".js"))

def addNew (seen : List Text) (path : Text) : List Text :=
  if seen.contains path then seen else seen ++ [path]

def files (d : Disk) (paths : List Text) : Except CorpusError (List Text) :=
  go [] paths
where
  go (seen : List Text) : List Text → Except CorpusError (List Text)
    | [] => .ok seen
    | path :: paths =>
      match filesOf d (Path.clean path) with
      | .error e => .error e
      | .ok found => go (found.foldl addNew seen) paths

def declarations (d : Disk) (canceled : Bool) : List Text → Except CorpusError (List ExternDecl × List Diagnostic)
  | [] => .ok ([], [])
  | file :: files =>
    if canceled then .error .canceled
    else
      match d.read file with
      | .error e => .error (CorpusError.ofDisk "read" file e)
      | .ok source =>
        match declarations d canceled files with
        | .error e => .error e
        | .ok (decls, ds) =>
          let (first, firstDs) := ExternDecl.ofFile file source
          .ok (first ++ decls, firstDs ++ ds)

def model (d : Disk) (canceled : Bool) (paths : List Text) : Except CorpusError (ExternModel × List Diagnostic) :=
  match files d paths with
  | .error e => .error e
  | .ok files =>
    match declarations d canceled files with
    | .error e => .error e
    | .ok (decls, ds) =>
      let (m, modelDs) := ExternModel.ofDecls decls
      .ok (m, ds ++ modelDs)

end Corpus

structure StubRun (σ : Type) where
  world : σ
  /-- The paths and texts of the stubs written, in order. -/
  written : List (Text × Text) := []
  excluded : Nat := 0
  diagnostics : List Diagnostic := []

namespace StubRun

variable {σ : Type}

structure Settings (σ : Type) where
  config : StubConfig
  writer : Writer σ
  /-- The run is canceled once this many stubs are written. -/
  cancelAfter : Option Nat := none

def isCanceled (s : Settings σ) (r : StubRun σ) : Bool :=
  match s.cancelAfter with
  | none => false
  | some n => n ≤ r.written.length

def exclude (r : StubRun σ) (e : Entry) (rule : ExclusionRule) : StubRun σ :=
  let reason : Text := if rule.description.isEmpty then [] else ": " ++ rule.description
  { r with
    excluded := r.excluded + 1
    diagnostics := r.diagnostics ++
      [.warning .excluded e.file e.line (e.kind.label ++ " " ++ e.qualifiedName ++ " excluded" ++ reason)] }

def write (s : Settings σ) (r : StubRun σ) (directory name text : Text) (e : Entry) : StubRun σ :=
  let path := artifactPath directory name "as"
  let (result, world) :=
    if isCanceled s r then (.error .canceled, r.world) else s.writer.write r.world path text
  match result with
  | .ok () => { r with world, written := r.written ++ [(path, text)] }
  | .error err =>
    { r with
      world
      diagnostics := r.diagnostics ++ [.error .failedAccess e.file e.line ("write " ++ path ++ ": " ++ err.message)] }

def writeTopLevel (s : Settings σ) (r : StubRun σ) (e : Entry) : StubRun σ :=
  write s r e.kind.directory e.name (StubText.topLevel e) e

/-- A static member as an entry in the package that holds its class. -/
def flattened (package : Text) (m : Entry) : Entry :=
  { m with
    owner := []
    isStatic := false
    name := if package.isEmpty then m.name else package ++ "." ++ m.name
    kind := if m.kind == .method then .function else .constant }

def flattenMember (s : Settings σ) (package : Text) (r : StubRun σ) (m : Entry) : StubRun σ :=
  match s.config.policy.rule? m with
  | some rule => r.exclude m rule
  | none => writeTopLevel s r (flattened package m)

def excludeMembers (policy : ExclusionPolicy) (r : StubRun σ) (members : List Entry) : StubRun σ :=
  members.foldl (fun r m =>
    match policy.rule? m with
    | some rule => r.exclude m rule
    | none => r) r

def writeClass (s : Settings σ) (r : StubRun σ) (c : ExternClass) (members : List Entry) : StubRun σ :=
  write s (excludeMembers s.config.policy r members)
    (if c.isInterface then EntryKind.interface else EntryKind.classType).directory c.name
    (StubText.classText s.config.policy c members) c.entry

/-- The stubs of a class: its own, or its static members' and then its own for what is left. -/
def classStep (s : Settings σ) (r : StubRun σ) (c : ExternClass) : StubRun σ :=
  match s.config.policy.rule? c.entry with
  | some rule => r.exclude c.entry rule
  | none =>
    if s.config.flattened.contains c.name then
      let r := (c.members.filter (·.isStatic)).foldl (flattenMember s (splitName c.name).1) r
      if c.hasInstanceMembers then writeClass s r c (c.members.filter fun m => !m.isStatic) else r
    else writeClass s r c c.members

def entryStep (s : Settings σ) (r : StubRun σ) (e : Entry) : StubRun σ :=
  match s.config.policy.rule? e with
  | some rule => r.exclude e rule
  | none => writeTopLevel s r e

/-- Carries out one step for each element. An error is the run as it was when canceled. -/
def each {α : Type} (s : Settings σ) (step : StubRun σ → α → StubRun σ) :
    StubRun σ → List α → Except (StubRun σ) (StubRun σ)
  | r, [] => .ok r
  | r, x :: xs => if isCanceled s r then .error r else each s step (step r x) xs

/-- Classes by name, then functions, constants and type definitions. -/
def emit (s : Settings σ) (m : ExternModel) (r : StubRun σ) : Except (StubRun σ) (StubRun σ) :=
  match each s (classStep s) r m.sortedClasses with
  | .error r => .error r
  | .ok r =>
    match each s (entryStep s) r (m.functions ++ m.constants ++ m.typedefs) with
    | .error r => .error r
    | .ok r => if isCanceled s r then .error r else .ok r

end StubRun

inductive StubError where
  | corpus (cause : CorpusError)
  | prepare (root : Text) (cause : WriteError)
  | canceled

namespace StubError

def message : StubError → Text
  | .corpus cause => cause.message
  | .prepare root cause => "prepare as-root " ++ root ++ ": " ++ cause.message
  | .canceled => "context canceled"

end StubError

structure StubResult where
  model : ExternModel
  files : List Text
  written : List (Text × Text)
  excluded : Nat
  diagnostics : List Diagnostic

/-- Compiles the corpus of a configuration. The disk holds the corpus, the world takes the stubs. -/
def StubRun.compile {σ : Type} (s : StubRun.Settings σ) (disk : Disk) (world : σ) : Except StubError StubResult × σ :=
  let canceled := s.cancelAfter == some 0
  match Corpus.model disk canceled s.config.externals with
  | .error e => (.error (.corpus e), world)
  | .ok (m, ds) =>
    match s.writer.prepare world with
    | (.error e, world) => (.error (.prepare s.config.root e), world)
    | (.ok (), world) =>
      match StubRun.emit s m { world } with
      | .error r => (.error .canceled, r.world)
      | .ok r =>
        (.ok ⟨m, r.written.map (·.1), r.written, r.excluded, ds ++ r.diagnostics⟩, r.world)

end ScriptBuild
