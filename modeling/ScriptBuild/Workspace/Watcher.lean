import ScriptBuild.Project.Discover
import ScriptBuild.Workspace.Syntax

/-! A watcher of directories. -/

namespace ScriptBuild

inductive WatchError where
  | noPaths
  | notDirectory
  | unreachable (cause : DiskError)
  | excludes (cause : GlobError)

def WatchError.message : WatchError → Text
  | .noPaths => "no paths configured for watching"
  | .notDirectory => "watch path is not a directory"
  | .unreachable cause => cause.message
  | .excludes cause => PathGlob.errorMessage cause

inductive FileEvent where
  /-- Something is at a path that was not, or that was something else. -/
  | appeared (path : Text)
  | vanished (path : Text)
  /-- Only the mode of a file changed. -/
  | changedMode (path : Text)

def FileEvent.path : FileEvent → Text
  | .appeared path => path
  | .vanished path => path
  | .changedMode path => path

/-- A change of a file, and the units that it made invalid. -/
structure ChangeNotice where
  path : Text
  invalidated : List UnitId

structure Watcher where
  excludes : List PathGlob := []
  directories : List Text := []

namespace Watcher

def checkPaths (d : Disk) : List Text → Except WatchError Unit
  | [] => .ok ()
  | path :: rest =>
    match d.stat path with
    | .error e => .error (.unreachable e)
    | .ok e => if e.isDirectory then checkPaths d rest else .error .notDirectory

def directoriesBelow (excludes : List PathGlob) (d : Disk) (root : Text) : List Text :=
  if PathGlob.anyMatch excludes root then []
  else
    (Disk.prune root (PathGlob.anyMatch excludes) (d.walk root)).filterMap fun v =>
      if v.isDirectory && v.error.isNone then some v.path else none

def add (w : Watcher) (d : Disk) (root : Text) : Watcher :=
  let new := (directoriesBelow w.excludes d root).filter fun path => !w.directories.contains path
  { w with directories := w.directories ++ new }

def ofPaths (d : Disk) (paths : List Text) (excludes : List Text) : Except WatchError Watcher := do
  if paths.isEmpty then throw .noPaths
  checkPaths d paths
  let globs ← (PathGlob.ofTexts excludes).mapError .excludes
  return paths.foldl (fun w path => w.add d path) { excludes := globs }

def isDirectory (d : Disk) (path : Text) : Bool :=
  match d.stat path with
  | .ok e => e.isDirectory
  | .error _ => false

/-- The path that has to be looked at after an event, if there is one. -/
def receive (w : Watcher) (d : Disk) (e : FileEvent) : Option Text × Watcher :=
  if !w.directories.contains (Path.dir e.path) || PathGlob.anyMatch w.excludes e.path then (none, w)
  else
    match e with
    | .appeared path => if isDirectory d path then (none, w.add d path) else (some path, w)
    | .vanished path => (some path, w)
    | .changedMode _ => (none, w)

/-- Passes an event on to a workspace. There is a notice if units became invalid. -/
def notice (w : Watcher) (ws : Workspace) (d : Disk) (e : FileEvent) : Option ChangeNotice × Watcher × Workspace :=
  match w.receive d e with
  | (none, w) => (none, w, ws)
  | (some path, w) =>
    match ws.refresh d path with
    | ([], ws) => (none, w, ws)
    | (ids, ws) => (some ⟨path, ids⟩, w, ws)

end Watcher

end ScriptBuild
