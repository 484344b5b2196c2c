import ScriptBuild.Json.Basic
import ScriptBuild.Text.LetterCase
import ScriptBuild.Text.Quoted

/-! Log records: their levels, and their lines as text or JSON. -/

namespace ScriptBuild

inductive LogLevel where
  | debug
  | info
  | warn
  | error
  deriving DecidableEq

inductive LogFormat where
  | text
  | json
  deriving DecidableEq

inductive LogError where
  | unknownLevel (name : Text)
  | unknownFormat (name : Text)

def LogError.message : LogError → Text
  | .unknownLevel name => "unknown log level " ++ Text.quote name
  | .unknownFormat name => "unknown log format " ++ Text.quote name

namespace LogLevel

def rank : LogLevel → Nat
  | .debug => 0
  | .info => 1
  | .warn => 2
  | .error => 3

def label : LogLevel → Text
  | .debug => "DEBUG"
  | .info => "INFO"
  | .warn => "WARN"
  | .error => "ERROR"

def names : List (Text × LogLevel) :=
  [("", .info), ("info", .info), ("debug", .debug), ("warn", .warn), ("warning", .warn), ("error", .error)]

/-- The level with a name, in any case of letters. No name is `info`. -/
def ofName (name : Text) : Except LogError LogLevel :=
  match names.lookup (Text.lower name) with
  | some level => .ok level
  | none => .error (.unknownLevel name)

end LogLevel

namespace LogFormat

def names : List (Text × LogFormat) := [("", .text), ("text", .text), ("json", .json)]

def ofName (name : Text) : Except LogError LogFormat :=
  match names.lookup (Text.lower name) with
  | some format => .ok format
  | none => .error (.unknownFormat name)

end LogFormat

structure LogRecord where
  level : LogLevel
  message : Text
  attributes : List (Text × Text) := []

structure Logger where
  level : LogLevel := .info
  format : LogFormat := .text

namespace Logger

def ofNames (level format : Text) : Except LogError Logger := do
  return ⟨← LogLevel.ofName level, ← LogFormat.ofName format⟩

def isDelicate (r : Rune) : Bool :=
  if r.code < 0x80 then r.code ≤ 32 || r.code == 61 || r.code == 34
  else r.code == Rune.replacement || Rune.isBlank r.code || !Rune.isPrintable r.code

def plainValue (s : Text) : Text := if s.isEmpty || s.runes.any isDelicate then s.quote else s

def textLine (pairs : List (Text × Text)) : Text :=
  Text.join " " (pairs.map fun (key, value) => key ++ "=" ++ plainValue value) ++ "\n"

def jsonLine (pairs : List (Text × Text)) : Text :=
  "\x7b" ++ Text.join "," (pairs.map fun (key, value) => Json.quotedIn false key ++ ":" ++ Json.quotedIn false value) ++ "\x7d\n"

/-- The line of a record; nothing if its level is too low. -/
def line (l : Logger) (r : LogRecord) : Text :=
  let pairs : List (Text × Text) := ("level", r.level.label) :: ("msg", r.message) :: r.attributes
  if r.level.rank < l.level.rank then []
  else
    match l.format with
    | .text => textLine pairs
    | .json => jsonLine pairs

end Logger

end ScriptBuild
