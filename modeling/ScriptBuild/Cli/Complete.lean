import ScriptBuild.Cli.Command

/-! The words that may come next in a command line: names of commands or of flags. -/

namespace ScriptBuild

open Text

inductive CompletionRule where
  | files
  | noFiles
  deriving DecidableEq

namespace CompletionRule

def code : CompletionRule → Nat
  | .files => 0
  | .noFiles => 4

def label : CompletionRule → Text
  | .files => "ShellCompDirectiveDefault"
  | .noFiles => "ShellCompDirectiveNoFileComp"

end CompletionRule

structure CompletionWord where
  word : Text
  description : Text

inductive CompletionError where
  | unknownCommand (words : List Text)
  | flags (words : List Text) (cause : FlagError)
  | unknownFlag (command flag : Text)

namespace CompletionError

def listText (words : List Text) : Text := "[" ++ join " " words ++ "]"

def message : CompletionError → Text
  | .unknownCommand words => "unable to find a command for arguments: " ++ listText words
  | .flags words cause => "Error while parsing flags from args " ++ listText words ++ ": " ++ cause.message
  | .unknownFlag command flag => "Subcommand '" ++ command ++ "' does not support flag '" ++ flag ++ "'"

end CompletionError

structure Completion where
  words : List CompletionWord := []
  rule : CompletionRule := .files
  error : Option CompletionError := none

namespace Completion

def fail (e : CompletionError) : Completion := { error := some e }

/-! ### Values of flags -/

structure Goal where
  flag : Option Flag := none
  before : List Text
  last : Text
  unknown : Option Text := none

def isFlagWord (s : Text) : Bool := startsWith s "-" && s.length ≥ 2 && s != "--"

/-- The name of the flag in a word: all after two dashes, or the last letter after one. -/
def flagName (s : Text) : Text := if startsWith s "--" then s.drop 2 else s.drop (s.length - 1)

def findFlag (c : Command) (name : Text) : Option Flag :=
  match name with
  | [letter] => c.allFlags.find? fun f => f.letter == some letter
  | _ => c.allFlags.find? fun f => f.name == name

/-- The goal if the last word has no flag in it: it is a value of the flag before it, if that one
needs a value. -/
def goalAfter (c : Command) (before : List Text) (last : Text) (hasSign : Bool) (whole : Text) : Goal :=
  let previous := before.getLastD []
  if !isFlagWord previous || containsText previous "=" then { before, last }
  else
    let name := flagName previous
    match findFlag c name with
    | none => { before, last := whole, unknown := some name }
    | some f =>
      if f.type == .switch && !hasSign then { before, last } else { flag := some f, before := before.dropLast, last }

def goal (c : Command) (before : List Text) (last : Text) : Goal :=
  if !c.takesFlags then { before, last }
  else if last.head? != some 0x2D then goalAfter c before last false last
  else
    match cut? "=" last with
    | none => { before, last }
    | some (lead, value) =>
      let name := flagName lead
      if name.isEmpty then goalAfter c before value true last
      else
        match findFlag c name with
        | none => { before, last, unknown := some name }
        | some f => { flag := some f, before, last := value }

/-! ### Words -/

def commandWord (c : Command) : CompletionWord := ⟨c.name, c.short⟩

def commandWords (c : Command) (lead : Text) : List CompletionWord :=
  (c.listed.filter fun child => startsWith child.name lead).map commandWord

def flagForms (lead : Text) (f : Flag) : List CompletionWord :=
  let letter := (f.letter.map fun b => ofString "-" ++ [b]).toList
  ((("--" ++ f.name) :: letter).filter fun form => startsWith form lead).map fun form => ⟨form, f.usage⟩

/-- The flags that may still be given: those that are not set, and those that may be given more than
once. -/
def flagWords (c : Command) (i : Invocation) (lead : Text) : List CompletionWord :=
  let isOpen (f : Flag) : Bool := !i.isSet f.name || f.type == .list || f.type == .texts
  ((c.allFlags.filter isOpen).mergeSort fun a b => ble a.name b.name).flatMap (flagForms lead)

def argumentWords? (c : Command) (arguments : List Text) (lead : Text) : Option (List CompletionWord) :=
  match c.id with
  | .help =>
    match Command.find arguments with
    | .ok (c, _) => some (commandWords c lead)
    | .error _ => some []
  | .completion | .script _ => some []
  | _ => none

/-- The words after the flags and arguments of `i`; `takesFlags` tells whether flags may still come. -/
def ofInvocation (c : Command) (i : Invocation) (arguments : List Text) (takesFlags : Bool) (g : Goal) : Completion :=
  if g.flag.isNone && g.last.head? == some 0x2D && !containsText g.last "=" && takesFlags then
    { words := flagWords c i g.last, rule := .noFiles }
  else
    let isFirst := g.flag.isNone && arguments.isEmpty && i.values.isEmpty
    let base : Completion :=
      if isFirst && !c.listed.isEmpty then { words := commandWords c g.last, rule := .noFiles } else {}
    match if g.flag.isSome && takesFlags then none else argumentWords? c arguments g.last with
    | some more => { words := base.words ++ more, rule := .noFiles }
    | none => base

def ofCommand (c : Command) (args : List Text) (last : Text) : Completion :=
  let g := goal c args last
  let parse (args : List Text) := if c.takesFlags then Invocation.parse c.allFlags args else .ok {}
  match parse g.before with
  | .error e => fail (.flags g.before e)
  | .ok i =>
    let more := match parse (g.before ++ [ofString "--"]) with
      | .ok j => j.arguments.length
      | .error _ => 0
    let takesFlags := more ≤ i.arguments.length
    match if takesFlags then g.unknown else none with
    | some flag => fail (.unknownFlag c.name flag)
    | none =>
      if i.isSet "help" || i.isSet "version" then { rule := .noFiles }
      else ofInvocation c i (if c.takesFlags then i.arguments else g.before) takesFlags g

/-- The words that may stand for the last of some words, which is not yet complete. -/
def ofWords (words : List Text) : Completion :=
  match Command.find words.dropLast with
  | .error _ => fail (.unknownCommand words.dropLast)
  | .ok (c, args) => ofCommand c args (words.getLastD [])

def text (c : Completion) (hasDescriptions : Bool) : Text :=
  let line (w : CompletionWord) : Text := w.word ++ onlyIf hasDescriptions ("\t" ++ w.description) ++ "\n"
  c.words.flatMap line ++ ":" ++ ofNat c.rule.code ++ "\n"

def notes (c : Completion) : Text :=
  let problem (e : CompletionError) : Text := "[Debug] [Error] " ++ e.message ++ "\n"
  (c.error.map problem).getD [] ++ "Completion ended with directive: " ++ c.rule.label ++ "\n"

end Completion

end ScriptBuild
