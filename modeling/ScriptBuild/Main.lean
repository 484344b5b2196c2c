import ScriptBuild.Cli.Watch
import Std.Time

/-! The program: a command works on the tree below the working directory. -/

namespace ScriptBuild.Host

/-- Adds a directory and what is below it. Hidden names and links are left out. -/
partial def readTree (d : Disk) (directory : String) : IO Disk := do
  let mut d := d.place directory .directory
  for e in ← ((← IO.currentDir) / directory).readDir do
    unless e.fileName.startsWith "." do
      let path := e.path.toString
      match (← e.path.symlinkMetadata).type with
      | .dir => d ← readTree d path
      | .file => d := d.putContent path (← IO.FS.readBinFile e.path).toList
      | _ => pure ()
  return d

def readDisk : IO Disk := do
  let here := (← IO.currentDir).toString
  readTree { onHost := true, workingDirectory := here } here

def readEnvironment : IO (Dictionary Text) := do
  let sources : SettingSources := { lead := "KILN", defaults := Config.defaultSettings }
  let mut found : Dictionary Text := []
  for key in sources.keys do
    let name := SettingSources.variableName sources.lead key
    if let some value ← IO.getEnv (Text.toString name) then found := found.insert name value
  return found

def readClock : IO Text := do
  let now := Std.Time.DateTime.ofTimestamp (← Std.Time.Timestamp.now) Std.Time.TimeZone.ZoneRules.UTC
  return Timestamp.canonical (now.format "uuuu-MM-dd'T'HH:mm:ss.SSSSSSSSS'Z'")

def written (before after : Disk) : List (Text × Text) :=
  after.entries.filterMap fun (path, e) =>
    if e.isDirectory || ((before.find? path).map (·.content)) == some e.content then none
    else some (path, e.content)

def writeChanges (before after : Disk) : IO Unit := do
  for (path, e) in after.entries do
    if e.isDirectory && (before.find? path).isNone then IO.FS.createDirAll (Text.toString path)
  for (path, content) in written before after do
    IO.FS.writeBinFile (Text.toString path) ⟨content.toArray⟩

def print (c : Console) : IO Unit := do
  (← IO.getStdout).write ⟨c.output.toArray⟩
  (← IO.getStderr).write ⟨c.errors.toArray⟩
  (← IO.getStdout).flush

def changes (before after : Disk) : List FileEvent :=
  (written before after).map (fun (path, _) => .appeared path) ++
    (before.entries.filter fun (path, _) => (after.find? path).isNone).map fun (path, _) => .vanished path

def flush (before : Disk) (s : WatchSession) : IO WatchSession := do
  writeChanges before s.disk
  print s.console
  return { s with console := { s.console with output := [], errors := [], now := ← readClock } }

partial def follow (known : Disk) (s : WatchSession) : IO UInt32 := do
  IO.sleep 200
  let seen ← readDisk
  let s := (changes known seen).foldl (fun s e => s.receive seen e) s
  let s ← flush seen s
  follow s.disk s

end ScriptBuild.Host

open ScriptBuild in
def main (args : List String) : IO UInt32 := do
  let disk ← Host.readDisk
  let console : Console :=
    { storage := { disk }, environment := ← Host.readEnvironment, now := ← Host.readClock }
  match CommandOutcome.run console (args.map Text.ofString) with
  | .ended code c =>
    Host.writeChanges disk c.storage.disk
    Host.print c
    return code.toUInt32
  | .watching s =>
    let s ← Host.flush disk s
    Host.follow s.disk s
