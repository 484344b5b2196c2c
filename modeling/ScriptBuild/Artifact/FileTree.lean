import ScriptBuild.Disk.Basic

/-! Artifacts as files below a root. -/

namespace ScriptBuild

inductive WriteError where
  | canceled
  | unwritable (place : Text) (reason : Text)
  | step (action place : Text) (cause : DiskError)
  | store (action : Text) (reason : Text)
  deriving DecidableEq

namespace WriteError

def message : WriteError → Text
  | .canceled => "context canceled"
  | .unwritable place reason => "output root is not writable: " ++ place ++ ": " ++ reason
  | .step action place cause => action ++ " " ++ place ++ ": " ++ cause.message
  | .store action reason => action ++ ": " ++ reason

end WriteError

structure Writer (σ : Type) where
  /-- Checks, before anything is written, that artifacts can be stored at all. -/
  prepare : σ → Except WriteError Unit × σ
  write : σ → Text → Text → Except WriteError Unit × σ

/-- The path of an artifact: the qualified name as a path below `subdir`, with an extension. -/
def artifactPath (subdir qname extension : Text) : Text :=
  let p := Text.replaceByte '.' '/' qname
  Path.join [subdir, if extension.isEmpty then p else p ++ "." ++ extension]

namespace FileTree

/-- When a write is canceled: before it begins, or after the temporary file is complete. -/
structure Cancel where
  early : Bool := false
  late : Bool := false

def unwritable (root : Text) (e : DiskError) : WriteError := .unwritable root e.message

def prepare (root : Text) (cancel : Cancel) (d : Disk) : Except WriteError Unit × Disk :=
  let root := Path.clean root
  if cancel.early then (.error .canceled, d)
  else
    match d.makeDirectory root with
    | .error e => (.error (unwritable root e), d)
    | .ok d =>
      match d.createTemporary root ".kiln-probe-" with
      | .error e => (.error (unwritable root e), d)
      | .ok (probe, d) =>
        match d.remove probe with
        | .error e => (.error (unwritable root e), d)
        | .ok d => (.ok (), d)

/-- Gives a write up: the temporary file goes away if it can be removed. -/
def abandon (d : Disk) (temporary : Text) (e : WriteError) : Except WriteError Unit × Disk :=
  (.error e,
    match d.remove temporary with
    | .ok d => d
    | .error _ => d)

def complete (cancel : Cancel) (d : Disk) (temporary destination data : Text) : Except WriteError Unit × Disk :=
  match d.writeTemporary temporary data with
  | .error e => abandon d temporary (.step "write" destination e)
  | .ok d =>
    match d.closeTemporary temporary with
    | .error e => abandon d temporary (.step "close" destination e)
    | .ok () =>
      match d.chmod temporary with
      | .error e => abandon d temporary (.step "chmod" destination e)
      | .ok () =>
        if cancel.late then abandon d temporary .canceled
        else
          match d.rename temporary destination with
          | .error e => abandon d temporary (.step "rename" destination e)
          | .ok d => (.ok (), d)

def write (root : Text) (cancel : Cancel) (d : Disk) (path data : Text) : Except WriteError Unit × Disk :=
  if cancel.early then (.error .canceled, d)
  else
    let destination := Path.join [root, path]
    let directory := Path.dir destination
    match d.makeDirectory directory with
    | .error e => (.error (.step "create" directory e), d)
    | .ok d =>
      match d.createTemporary directory ("." ++ Path.base destination ++ ".tmp-") with
      | .error e => (.error (.step "create temp file for" destination e), d)
      | .ok (temporary, d) => complete cancel d temporary destination data

def writer (root : Text) (cancel : Cancel := {}) : Writer Disk :=
  { prepare := prepare root cancel, write := write root cancel }

end FileTree

end ScriptBuild
