import ScriptBuild.Text.Basic

/-! A disk: files and directories by path, walks over them, and the ways in which access to them fails. -/

namespace ScriptBuild

open Text

namespace Path

def isAbsolute (p : Text) : Bool := p.head? == some '/'

def push (rooted : Bool) (stack : List Text) (c : Text) : List Text :=
  if c.isEmpty || c == "." then stack
  else if c == ".." then
    match stack with
    | [] => if rooted then [] else [c]
    | top :: below => if top == ".." then c :: stack else below
  else c :: stack

/-- The components that remain when `.` and `..` are carried out. -/
def components (p : Text) : List Text :=
  ((split '/' p).foldl (push (isAbsolute p)) []).reverse

def clean (p : Text) : Text :=
  let body := Text.join "/" (components p)
  if isAbsolute p then "/" ++ body else if body.isEmpty then "." else body

/-- Puts paths one after another; empty ones at the beginning are passed over. -/
def join (parts : List Text) : Text :=
  match parts.dropWhile List.isEmpty with
  | [] => []
  | parts => clean (Text.join "/" parts)

/-- The path up to and with its last slash, and what follows. -/
def splitLast (p : Text) : Text × Text :=
  match cutLast? "/" p with
  | some (before, after) => (before ++ "/", after)
  | none => ([], p)

def dir (p : Text) : Text := clean (splitLast p).1

def base (p : Text) : Text :=
  if p.isEmpty then "."
  else
    let stripped := trimRightBytes (· == ('/' : Char)) p
    if stripped.isEmpty then "/" else (splitLast stripped).2

/-- The last component from its last dot on. -/
def ext (p : Text) : Text :=
  match cutLast? "." (splitLast p).2 with
  | some (_, after) => "." ++ after
  | none => []

def withoutExt (p : Text) : Text := dropSuffix (ext p) p

/-- Whether `p` is `root` or lies below it, both being cleaned. -/
def isWithin (root p : Text) : Bool :=
  p == root || startsWith p (if endsWith root "/" then root else root ++ "/")

end Path

/-- The calls of a program on a disk. `gone` and `hold` are further ways to open a file. -/
inductive DiskCall where
  | stat
  | open
  | mkdir
  | create
  | write
  | close
  | chmod
  | rename
  | remove
  | gone
  | hold
  deriving DecidableEq

namespace DiskCall

def label : DiskCall → Text
  | .stat => "stat"
  | .open => "open"
  | .mkdir => "mkdir"
  | .create => "create"
  | .write => "write"
  | .close => "close"
  | .chmod => "chmod"
  | .rename => "rename"
  | .remove => "remove"
  | .gone => "gone"
  | .hold => "hold"

def all : List DiskCall :=
  [.stat, .open, .mkdir, .create, .write, .close, .chmod, .rename, .remove, .gone, .hold]

def ofLabel? (s : Text) : Option DiskCall := all.find? fun c => c.label == s

end DiskCall

/-- A call fails on the paths that contain `part`. -/
structure Fault where
  call : DiskCall
  part : Text

inductive DiskError where
  | injected (call : DiskCall)
  | notPermitted
  | missing (operation path : Text)
  | noEntry (operation path : Text)
  | notDirectory (operation path : Text)
  | isDirectory (operation path : Text)
  | fileExists (operation path : Text)
  deriving DecidableEq

namespace DiskError

def message : DiskError → Text
  | .injected call => "injected " ++ call.label
  | .notPermitted => "operation not permitted"
  | .missing operation path => operation ++ " " ++ path ++ ": file does not exist"
  | .noEntry operation path => operation ++ " " ++ path ++ ": no such file or directory"
  | .notDirectory operation path => operation ++ " " ++ path ++ ": not a directory"
  | .isDirectory operation path => operation ++ " " ++ path ++ ": is a directory"
  | .fileExists operation path => operation ++ " " ++ path ++ ": file exists"

def isMissing : DiskError → Bool
  | .missing _ _ | .noEntry _ _ => true
  | _ => false

end DiskError

structure DiskEntry where
  content : Text := []
  names : Option (List Text) := none

namespace DiskEntry

def isDirectory (e : DiskEntry) : Bool := e.names.isSome

def directory : DiskEntry := { names := some [] }

def addName (e : DiskEntry) (name : Text) : DiskEntry :=
  let names := e.names.getD []
  { e with names := some (if names.contains name then names else names ++ [name]) }

def removeName (e : DiskEntry) (name : Text) : DiskEntry :=
  { e with names := e.names.map fun names => names.filter (· != name) }

end DiskEntry

structure Disk where
  /-- Whether this is a disk of the operating system, with a working directory. -/
  onHost : Bool := false
  workingDirectory : Text := "/"
  readonly : Bool := false
  faults : List Fault := []
  entries : List (Text × DiskEntry) := [(ofString "/", DiskEntry.directory)]
  temporaries : Nat := 0

namespace Disk

def key (d : Disk) (path : Text) : Text :=
  if d.onHost then
    if Path.isAbsolute path then Path.clean path else Path.join [d.workingDirectory, path]
  else
    let p := Path.clean path
    if p == "." || p == ".." then "/" else p

def find? (d : Disk) (path : Text) : Option DiskEntry := d.entries.lookup (d.key path)

def setEntry (k : Text) (e : DiskEntry) : List (Text × DiskEntry) → List (Text × DiskEntry)
  | [] => [(k, e)]
  | (k', e') :: rest => if k' == k then (k, e) :: rest else (k', e') :: setEntry k e rest

def set (d : Disk) (k : Text) (e : DiskEntry) : Disk := { d with entries := setEntry k e d.entries }

def delete (d : Disk) (k : Text) : Disk :=
  { d with entries := d.entries.filter fun (k', _) => k' != k }

def parentKey (d : Disk) (k : Text) : Text := d.key (Path.splitLast k).1

/-- Enters `k` into its directory. Directories above it that are missing are made; `fuel` bounds
their number. -/
def register : Nat → Disk → Text → Disk
  | 0, d, _ => d
  | fuel + 1, d, k =>
    let parent := d.parentKey k
    match d.entries.lookup parent with
    | some e => d.set parent (e.addName (Path.base k))
    | none =>
      let d := register fuel (d.set parent .directory) parent
      d.set parent (((d.entries.lookup parent).getD .directory).addName (Path.base k))

def unregister (d : Disk) (k : Text) : Disk :=
  let parent := d.parentKey k
  match d.entries.lookup parent with
  | some e => d.set parent (e.removeName (Path.base k))
  | none => d

def place (d : Disk) (path : Text) (e : DiskEntry) : Disk :=
  let k := d.key path
  register (k.length + 1) (d.set k e) k

def isFaulty (d : Disk) (call : DiskCall) (path : Text) : Bool :=
  d.faults.any fun f => f.call == call && containsText path f.part

def isHeld (d : Disk) (path : Text) : Bool := d.isFaulty .hold path

def release (d : Disk) : Disk := { d with faults := d.faults.filter fun f => f.call != .hold }

/-- The file on the way to a path, if there is one where a directory has to be. -/
def fileAbove? : Nat → Disk → Text → Option Text
  | 0, _, _ => none
  | fuel + 1, d, path =>
    let parent := Path.dir path
    if parent == path then none
    else
      match d.find? parent with
      | some e => if e.isDirectory then none else some parent
      | none => fileAbove? fuel d parent

def absence (d : Disk) (operation path : Text) : DiskError :=
  if d.onHost then
    if (fileAbove? path.length d path).isSome then .notDirectory operation path else .noEntry operation path
  else .missing "open" (d.key path)

def stat (d : Disk) (path : Text) : Except DiskError DiskEntry :=
  if d.isFaulty .stat path then .error (.injected .stat)
  else
    match d.find? path with
    | some e => .ok e
    | none => .error (d.absence "stat" path)

/-- Whether something is at a path; only a failure other than its absence is an error. -/
def fileExists (d : Disk) (path : Text) : Except DiskError Bool :=
  match d.stat path with
  | .ok _ => .ok true
  | .error e => if e.isMissing then .ok false else .error e

def openEntry (d : Disk) (path : Text) : Except DiskError DiskEntry :=
  if d.isFaulty .open path then .error (.injected .open)
  else if d.isFaulty .gone path then .error (.missing "open" path)
  else
    match d.find? path with
    | some e => .ok e
    | none => .error (d.absence "open" path)

def read (d : Disk) (path : Text) : Except DiskError Text :=
  match d.openEntry path with
  | .error e => .error e
  | .ok e => if d.onHost && e.isDirectory then .error (.isDirectory "read" path) else .ok e.content

def list (d : Disk) (path : Text) : Except DiskError (List Text) :=
  match d.openEntry path with
  | .error e => .error e
  | .ok e => .ok (sort (e.names.getD []))

def makeDirectory (d : Disk) (path : Text) : Except DiskError Disk :=
  if d.readonly then .error .notPermitted
  else if d.isFaulty .mkdir path then .error (.injected .mkdir)
  else
    match d.find? path with
    | some e => if d.onHost && !e.isDirectory then .error (.notDirectory "mkdir" path) else .ok d
    | none =>
      match if d.onHost then fileAbove? path.length d path else none with
      | some above => .error (.notDirectory "mkdir" above)
      | none => .ok (d.place path .directory)

/-- Makes an empty file whose name begins with `lead` and ends with a number. Numbers that are taken
are passed over, up to a limit. -/
def openTemporary : Nat → Disk → Text → Text → Except DiskError (Text × Disk)
  | attempts, d, directory, lead =>
    let d := { d with temporaries := d.temporaries + 1 }
    let path := Path.join [directory, lead ++ ofNat d.temporaries]
    if d.readonly then .error .notPermitted
    else if d.isFaulty .create path then .error (.injected .create)
    else if (d.find? path).isNone then .ok (path, d.place path {})
    else
      match attempts with
      | 0 => .error (.fileExists "open" path)
      | attempts + 1 => openTemporary attempts d directory lead

/-- Makes an empty file with a name of its own, which begins with `lead`. -/
def createTemporary (d : Disk) (directory lead : Text) : Except DiskError (Text × Disk) :=
  openTemporary 9999 d directory lead

def putContent (d : Disk) (path content : Text) : Disk :=
  d.place path { content, names := (d.find? path).bind (·.names) }

def writeTemporary (d : Disk) (path content : Text) : Except DiskError Disk :=
  if d.isFaulty .write path then .error (.injected .write) else .ok (d.putContent path content)

def closeTemporary (d : Disk) (path : Text) : Except DiskError Unit :=
  if d.isFaulty .close path then .error (.injected .close) else .ok ()

def chmod (d : Disk) (path : Text) : Except DiskError Unit :=
  if d.readonly then .error .notPermitted
  else if d.isFaulty .chmod path then .error (.injected .chmod)
  else
    match d.find? path with
    | some _ => .ok ()
    | none => .error (d.absence "chmod" path)

def erase (d : Disk) (path : Text) : Disk :=
  let k := d.key path
  (d.unregister k).delete k

def rename (d : Disk) (old new : Text) : Except DiskError Disk :=
  if d.readonly then .error .notPermitted
  else if d.isFaulty .rename new then .error (.injected .rename)
  else
    match d.find? old with
    | none => .error (.missing "rename" (d.key old))
    | some e =>
      if d.key old == d.key new then .ok d
      else if d.onHost && (d.find? new).any (·.isDirectory) then .error (.fileExists ("rename " ++ old) new)
      else .ok ((d.erase old).place new e)

def remove (d : Disk) (path : Text) : Except DiskError Disk :=
  if d.readonly then .error .notPermitted
  else if d.isFaulty .remove path then .error (.injected .remove)
  else
    match d.find? path with
    | none => .error (if d.onHost then .noEntry "remove" path else .missing "remove" (d.key path))
    | some _ => .ok (d.erase path)

end Disk

namespace Disk

/-- A place that a walk comes to. A place whose entry or names cannot be read carries the error. -/
structure Visit where
  path : Text
  isDirectory : Bool
  error : Option DiskError := none

mutual

/-- Visits below an entry. `fuel` bounds the depth. -/
def walkEntry : Nat → Disk → Text → DiskEntry → List Visit
  | 0, _, _, _ => []
  | fuel + 1, d, path, e =>
    ⟨path, e.isDirectory, none⟩ :: (if e.isDirectory then
        match d.list path with
        | .error err => [⟨path, true, some err⟩]
        | .ok names => walkNames fuel d path names
      else [])

def walkNames : Nat → Disk → Text → List Text → List Visit
  | _, _, _, [] => []
  | 0, _, _, _ => []
  | fuel + 1, d, path, name :: names =>
    let child := Path.join [path, name]
    (match d.stat child with
      | .error err => [⟨child, false, some err⟩]
      | .ok e => walkEntry fuel d child e) ++ walkNames (fuel + 1) d path names

end

def walk (d : Disk) (root : Text) : List Visit :=
  match d.stat root with
  | .error err => [⟨root, false, some err⟩]
  | .ok e => walkEntry (2 * d.entries.length + 2) d root e

def filesBelow (d : Disk) (root : Text) : Except DiskError (List Text) :=
  go (d.walk root)
where
  go : List Visit → Except DiskError (List Text)
    | [] => .ok []
    | v :: vs =>
      match v.error with
      | some e => .error e
      | none => (go vs).map fun paths => if v.isDirectory then paths else v.path :: paths

end Disk

end ScriptBuild
