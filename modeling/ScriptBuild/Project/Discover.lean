import ScriptBuild.Workspace.Basic

/-! All files below the source roots of a project that are units. -/

namespace ScriptBuild

namespace Disk

def prune (root : Text) (skip : Text → Bool) : List Visit → List Visit :=
  go none
where
  go (skipped : Option Text) : List Visit → List Visit
    | [] => []
    | v :: vs =>
      if skipped.any fun s => v.path == s || Text.startsWith v.path (s ++ "/") then go skipped vs
      else if v.isDirectory && v.error.isNone && v.path != root && skip v.path then go (some v.path) vs
      else v :: go skipped vs

def visitedFiles : List Visit → Except DiskError (List Text)
  | [] => .ok []
  | v :: vs =>
    match v.error with
    | some e => .error e
    | none => (visitedFiles vs).map fun paths => if v.isDirectory then paths else v.path :: paths

end Disk

structure DiscoverError where
  root : Text
  cause : DiskError

def DiscoverError.message (e : DiscoverError) : Text := "discover " ++ e.root ++ ": " ++ e.cause.message

namespace ProjectConfig

def discoverBelow (p : ProjectConfig) (d : Disk) : List Text → Except DiscoverError (List Text)
  | [] => .ok []
  | root :: roots =>
    match Disk.visitedFiles (Disk.prune root (PathGlob.anyMatch p.excludes) (d.walk root)) with
    | .error e => .error ⟨root, e⟩
    | .ok files => (p.discoverBelow d roots).map fun rest => files ++ rest

def discover (p : ProjectConfig) (d : Disk) : Except DiscoverError (List Text) :=
  (p.discoverBelow d p.sourcePaths).map fun files => Text.sort (files.filter fun f => (p.describe f).isSome)

end ProjectConfig

end ScriptBuild
