import ScriptBuild.Cli.Flag
import ScriptBuild.Text.LetterCase

/-! The commands of the program, how one is found in a command line, and their help. -/

namespace ScriptBuild

open Text

inductive ScriptShell where
  | bash
  | zsh
  | fish
  | powershell
  deriving DecidableEq

inductive CommandId where
  | root
  | build
  | stubs
  | graph
  | watch
  | backends
  | help
  | completion
  | script (shell : ScriptShell)
  | complete
  deriving DecidableEq

inductive ArgumentRule where
  | any
  | none
  | exactly (n : Nat)
  | atLeast (n : Nat)

structure Command where
  id : CommandId
  /-- The path of the command above this one; nothing for the root. -/
  lead : Text := "kiln"
  use : Text
  otherName : Option Text := Option.none
  /-- Whether the command was called by its other name. -/
  isAlias : Bool := false
  short : Text
  /-- The help text; none is the short text. -/
  long : Text := []
  flags : List Flag := []
  rule : ArgumentRule := .any
  isRunnable : Bool := true
  isHidden : Bool := false
  showsFlags : Bool := true
  takesFlags : Bool := true

namespace Command

def name (c : Command) : Text := (cut " " c.use).1

def path (c : Command) : Text := if c.lead.isEmpty then c.name else c.lead ++ " " ++ c.name

def buildFlags : List Flag :=
  [{ name := "config", usage := "Config file path" },
    { name := "backend", usage := "Backend name (see `kiln backends`)" },
    { name := "output", usage := "Output root" },
    { name := "source-path", type := .list, usage := "Source root (repeatable)" },
    { name := "library-path", type := .list, usage := "Library root (repeatable)" },
    { name := "namespace", type := .texts, usage := "Markup namespace mapping uri=package (repeatable)" },
    { name := "jobs", type := .integer, usage := "Units emitted concurrently (default GOMAXPROCS)" }]

def build : Command :=
  { id := .build
    use := "build <root-file>"
    short := "Compile a root file and everything it reaches"
    flags := buildFlags ++ [{ name := "json", type := .switch, usage := "Output the build report as JSON" }]
    rule := .exactly 1 }

def stubs : Command :=
  { id := .stubs
    use := "extern"
    short := "Generate reference stubs from a declaration corpus"
    flags :=
      [{ name := "config", usage := "Config file path" },
        { name := "as-root", usage := "Directory receiving the stubs" },
        { name := "external", type := .list, usage := "Declaration file or directory (repeatable)" },
        { name := "class-to-function", type := .list, usage := "Class emitted as a function" },
        { name := "class-exclude", type := .list, usage := "Class to exclude" },
        { name := "field-exclude", type := .list, usage := "Field to exclude, as class,field" },
        { name := "exclude", type := .list, usage := "Member to exclude, as class,member" }] }

def graph : Command :=
  { id := .graph
    use := "graph <root-file>"
    short := "Analyze the unit dependency graph of a root"
    flags := buildFlags ++ [{ name := "format", usage := "Output format: text, dot, mermaid, json", default := "text" },
        { name := "store", type := .switch, usage := "Persist the graph to the configured Neo4j database" },
        { name := "dependents", usage := "Print the units that transitively import this unit ID" }]
    rule := .exactly 1 }

def watch : Command :=
  { id := .watch
    use := "watch <root-file>"
    short := "Rebuild a root whenever its sources change"
    flags := buildFlags ++
      [{ name := "store", type := .switch, usage := "Keep the Neo4j dependency graph current after every build" },
        { name := "listen", usage := "Serve health probes, /status, /events and /metrics on this address" }]
    rule := .exactly 1 }

def backends : Command := { id := .backends, use := "backends", short := "List available backends" }

def help : Command :=
  { id := .help
    use := "help [command]"
    short := "Help about any command"
    long := "Help provides help for any command in the application.\n" ++
      "Simply type kiln help [path to command] for full details." }

def completion : Command :=
  { id := .completion
    use := "completion"
    short := "Generate the autocompletion script for the specified shell"
    long := "Generate the autocompletion script for kiln for the specified shell.\n" ++
      "See each sub-command's help for details on how to use the generated script."
    rule := .none
    isRunnable := false }

def script (shell : ScriptShell) (name fullName setup : Text) : Command :=
  let title : Text := "Generate the autocompletion script for "
  { id := .script shell
    lead := "kiln completion"
    use := name
    short := title ++ name
    long := title ++ fullName ++ ".\n\n" ++ setup
    flags := [{ name := "no-descriptions", type := .switch, usage := "disable completion descriptions" }]
    rule := .none
    showsFlags := shell != .bash }

def forSession : Text := "To load completions in your current shell session:\n\n"

def forAll : Text := "To load completions for every new session, execute once:\n\n"

def newShell : Text := "You will need to start a new shell for this setup to take effect."

def bash : Command :=
  script .bash "bash" "the bash shell" ("This script depends on the 'bash-completion' package.\n" ++
    "If it is not installed already, you can install it via your OS's package manager.\n\n" ++
    forSession ++ "\tsource <(kiln completion bash)\n\n" ++
    forAll ++ "#### Linux:\n\n\tkiln completion bash > /etc/bash_completion.d/kiln\n\n" ++
    "#### macOS:\n\n\tkiln completion bash > $(brew --prefix)/etc/bash_completion.d/kiln\n\n" ++ newShell)

def zsh : Command :=
  script .zsh "zsh" "the zsh shell" ("If shell completion is not already enabled in your environment you will need\n" ++
    "to enable it.  You can execute the following once:\n\n" ++
    "\techo \"autoload -U compinit; compinit\" >> ~/.zshrc\n\n" ++
    forSession ++ "\tsource <(kiln completion zsh)\n\n" ++
    forAll ++ "#### Linux:\n\n\tkiln completion zsh > \"$\x7bfpath[1]\x7d/_kiln\"\n\n" ++
    "#### macOS:\n\n\tkiln completion zsh > $(brew --prefix)/share/zsh/site-functions/_kiln\n\n" ++ newShell)

def fish : Command :=
  script .fish "fish" "the fish shell" (forSession ++ "\tkiln completion fish | source\n\n" ++
    forAll ++ "\tkiln completion fish > ~/.config/fish/completions/kiln.fish\n\n" ++ newShell)

def powershell : Command :=
  script .powershell "powershell" "powershell" (forSession ++ "\tkiln completion powershell | Out-String | Invoke-Expression\n\n" ++
    "To load completions for every new session, add the output of the above command\n" ++
    "to your powershell profile.")

/-- The command with which completion scripts ask for the words that may come next. -/
def complete : Command :=
  { id := .complete
    use := "__complete [command-line]"
    otherName := some "__completeNoDesc"
    short := "Request shell completion choices for the specified command-line"
    rule := .atLeast 1
    isHidden := true
    takesFlags := false }

def all : List Command :=
  [build, stubs, graph, watch, backends, help, completion, complete, bash, zsh, fish, powershell]

def root : Command :=
  { id := .root
    lead := []
    use := "kiln"
    short := "Incremental multi-backend compiler"
    isRunnable := false }

def children (c : Command) : List Command := all.filter fun child => child.lead == c.path

def listed (c : Command) : List Command :=
  (c.children.filter fun child => !child.isHidden).mergeSort fun a b => ble a.name b.name

def commonFlags (c : Command) : List Flag :=
  let helpFlag : Flag :=
    { name := "help", letter := some 'h', type := .switch, usage := "help for " ++ c.name }
  if c.id == .root then
    [helpFlag, { name := "version", letter := some 'v', type := .switch, usage := "version for " ++ c.name }]
  else [helpFlag]

def allFlags (c : Command) : List Flag := c.flags ++ c.commonFlags

/-- Whether an argument is a flag whose value may be the next argument, as far as is known before
the flags of a command are. -/
def mayTakeNext (s : Text) : Bool :=
  !containsText s "=" && (startsWith s "--" || (s.head? == some 0x2D && s.length == 2))

def words : List Text → List Text
  | [] => []
  | s :: rest =>
    if s == "--" then []
    else if mayTakeNext s then
      match rest with
      | _ :: next :: rest => words (next :: rest)
      | _ => []
    else if !s.isEmpty && s.head? != some 0x2D then s :: words rest
    else words rest

def withoutWord (w : Text) : List Text → List Text
  | [] => []
  | s :: rest =>
    if s == "--" then s :: rest
    else if mayTakeNext s then
      match rest with
      | [] => [s]
      | value :: rest => s :: value :: withoutWord w rest
    else if s == w then rest
    else s :: withoutWord w rest

/-- The number of edits between two texts: bytes put in, taken out or replaced. -/
def distance (a b : Text) : Nat :=
  let step (row : List Nat) (x : UInt8) : List Nat :=
    let first := row.headD 0 + 1
    (row.zip ((row.drop 1).zip b)).foldl (fun acc (diagonal, above, y) =>
      let left := acc.getLastD 0
      acc ++ [if x == y then diagonal else min (min left above) diagonal + 1]) [first]
  (a.foldl step (List.range (b.length + 1))).getLastD 0

/-- Commands that a word may have been meant for; the one for help is never among them. -/
def suggestions (word : Text) : List Text :=
  let lower := lower word
  let names := (root.children.filter fun c => c.id != .help && !c.isHidden).map name
  names.filter fun c => distance lower c ≤ 2 || startsWith c lower

def suggestionLine (name : Text) : Text := "\t" ++ name ++ "\n"

def unknownCommand (word : Text) : Text :=
  let likely := suggestions word
  "unknown command " ++ word.quote ++ " for \"kiln\"" ++ onlyIf (!likely.isEmpty)
      ("\n\nDid you mean this?\n" ++ likely.flatMap suggestionLine)

def follow : Nat → Command → List Text → Command × List Text
  | 0, c, args => (c, args)
  | depth + 1, c, args =>
    match words args with
    | [] => (c, args)
    | word :: _ =>
      match c.children.find? fun child => child.name == word || child.otherName == some word with
      | some child => follow depth { child with isAlias := child.name != word } (withoutWord word args)
      | none => (c, args)

/-- The command that arguments call, and the arguments for it; or the word that is no command. Commands
are at most two levels below the root. -/
def find (args : List Text) : Except Text (Command × List Text) :=
  let (c, rest) := follow 2 root args
  match if c.id == .root then words rest else [] with
  | [] => .ok (c, rest)
  | word :: _ => .error word

end Command

namespace Flag

/-- The name of a flag's value, and its usage without the marks around that name. -/
def valueName (f : Flag) : Text × Text :=
  match cut? "`" f.usage with
  | some (before, rest) =>
    let (name, after) := cut "`" rest
    (name, before ++ name ++ after)
  | none =>
    let name : Text :=
      match f.type with
      | .text => "string"
      | .switch => []
      | .integer => "int"
      | .list => "strings"
      | .texts => "stringArray"
    (name, f.usage)

def entry (f : Flag) : Text :=
  let name := f.valueName.1
  let lead : Text :=
    match f.letter with
    | some letter => "  -" ++ [letter] ++ ", --"
    | none => "      --"
  lead ++ f.name ++ onlyIf (!name.isEmpty) (" " ++ name)

def description (f : Flag) : Text :=
  f.valueName.2 ++ onlyIf (!f.default.isEmpty) (" (default " ++ f.default.quote ++ ")")

def table (flags : List Flag) : Text :=
  let sorted := flags.mergeSort fun a b => ble a.name b.name
  let width := (sorted.map fun f => f.entry.length).foldl max 0
  join "\n" (sorted.map fun f => padRight (width + 3) f.entry ++ f.description)

end Flag

namespace Command

def useLine (c : Command) : Text :=
  (if c.lead.isEmpty then c.use else c.lead ++ " " ++ c.use) ++ onlyIf c.showsFlags " [flags]"

def childLine (child : Command) : Text := "\n  " ++ padRight 11 child.name ++ " " ++ child.short

def usage (c : Command) (flags : List Flag) : Text :=
  let rows := c.listed.flatMap childLine
  let hasRows := !rows.isEmpty
  "Usage:" ++ onlyIf c.isRunnable ("\n  " ++ c.useLine) ++
    onlyIf hasRows ("\n  " ++ c.path ++ " [command]\n\nAvailable Commands:" ++ rows) ++
    onlyIf (!flags.isEmpty) ("\n\nFlags:\n" ++ Flag.table flags) ++
    onlyIf hasRows
      ("\n\nUse \"" ++ c.path ++ " [command] --help\" for more information about a command.") ++ "\n"

def helpText (c : Command) : Text :=
  (if c.long.isEmpty then c.short else c.long) ++ "\n\n" ++ c.usage c.allFlags

end Command

end ScriptBuild
