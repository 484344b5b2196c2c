import ScriptBuild.Dictionary
import ScriptBuild.Disk.Basic
import ScriptBuild.Glob.Compile
import ScriptBuild.Tree.Basic

/-! Projects: ordered source and library roots, the kinds of files they hold, and what is left out. -/

namespace ScriptBuild

open Text

inductive UnitKind where
  | source
  | markup
  | resource
  deriving DecidableEq

def UnitKind.label : UnitKind → Text
  | .source => "source"
  | .markup => "markup"
  | .resource => "resource"

def UnitKind.all : List UnitKind := [.source, .markup, .resource]

structure UnitSpec where
  kind : UnitKind
  name : Text
  /-- Library units are dependencies that are never emitted. -/
  isLibrary : Bool
  deriving DecidableEq

structure ProjectConfig where
  name : Text
  sourcePaths : List Text := []
  libraryPaths : List Text := []
  namespaces : Dictionary Text := []
  excludes : List PathGlob := []
  extensions : Dictionary UnitKind := []

def Disk.absolute (d : Disk) (path : Text) : Text :=
  if Path.isAbsolute path then Path.clean path else Path.join [d.workingDirectory, path]

def Disk.roots (d : Disk) (paths : List Text) : List Text := (paths.filter fun p => !p.isEmpty).map d.absolute

/-- A path from `root` on, if it lies below it. Names that begin with two dots do not count. -/
def Path.below? (root path : Text) : Option Text :=
  match dropPrefix? (if root == "/" then "/" else root ++ "/") path with
  | some rest => if rest.isEmpty || startsWith rest ".." then none else some rest
  | none => none

def joinName (package name : Text) : Text := if package.isEmpty then name else package ++ "." ++ name

namespace ProjectConfig

/-- Source roots before library roots, and whether each is a library. -/
def roots (p : ProjectConfig) : List (Text × Bool) :=
  p.sourcePaths.map (·, false) ++ p.libraryPaths.map (·, true)

/-- A path from the first root above it on, and whether that is a library. -/
def relative? (p : ProjectConfig) (path : Text) : Option (Text × Bool) :=
  p.roots.findSome? fun (root, isLibrary) => (Path.below? root path).map (·, isLibrary)

/-- The qualified name of a file: its path with dots, without the extension. -/
def nameOf (kind : UnitKind) (relative : Text) : Text :=
  if kind == .resource then relative else replaceByte '/' '.' (Path.withoutExt relative)

def describe (p : ProjectConfig) (path : Text) : Option UnitSpec :=
  match p.extensions.find? (Path.ext path) with
  | none => none
  | some kind =>
    if PathGlob.anyMatch p.excludes path then none
    else (p.relative? (Path.clean path)).map fun (relative, isLibrary) => ⟨kind, nameOf kind relative, isLibrary⟩

def nameExtensions (p : ProjectConfig) : List Text :=
  sort ((p.extensions.filter fun (_, kind) => kind != .resource).map (·.1))

/-- The paths where the unit with a qualified name may be, in the order they are tried. -/
def candidates (p : ProjectConfig) (qname : Text) : List Text :=
  if qname.isEmpty then []
  else
    let relative := replaceByte '.' '/' qname
    p.roots.flatMap fun (root, _) =>
      p.nameExtensions.map fun extension => Path.join [root, relative ++ extension]

def resourceCandidates (p : ProjectConfig) (relative : Text) : List Text :=
  p.roots.map fun (root, _) => Path.join [root, relative]

/-- The qualified name of a name in a file. A name with a prefix is empty if the namespaces do not map it; a bare name
is an imported one or one of the file's own package. -/
def qualifiedName (p : ProjectConfig) (f : SourceFile) (name : Text) : Text :=
  match cut? ":" name with
  | some (lead, localName) =>
    match (f.namespaces.lookup lead).bind p.namespaces.find? with
    | some package => joinName package localName
    | none => []
  | none =>
    match f.package with
    | none => name
    | some package =>
      if name.contains '.' then name
      else
        match package.imports.find? fun i => i.name == name || endsWith i.name ("." ++ name) with
        | some i => i.name
        | none => joinName package.name name

end ProjectConfig

end ScriptBuild
