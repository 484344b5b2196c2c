import ScriptBuild.Text.Basic

/-! Diagnostics: messages with a kind, a severity and a file position. -/

namespace ScriptBuild

inductive Severity where
  | warning
  | error
  deriving DecidableEq

def Severity.label : Severity → Text
  | .warning => "warning"
  | .error => "error"

inductive DiagnosticKind where
  | parse
  | cycle
  | missingFile
  | malformedExclusion
  | failedAccess
  | unresolved
  | excluded
  | duplicate
  | unrecognized
  | other (label : Text)
  deriving DecidableEq

def DiagnosticKind.label : DiagnosticKind → Text
  | .parse => "parse_error"
  | .cycle => "dependency_cycle"
  | .missingFile => "missing_file"
  | .malformedExclusion => "malformed_exclusion_argument"
  | .failedAccess => "io_failure"
  | .unresolved => "unresolved_dependency"
  | .excluded => "excluded"
  | .duplicate => "duplicate_reference"
  | .unrecognized => "unrecognized_declaration"
  | .other label => label

def DiagnosticKind.all : List DiagnosticKind :=
  [.parse, .cycle, .missingFile, .malformedExclusion, .failedAccess, .unresolved, .excluded, .duplicate, .unrecognized]

def DiagnosticKind.ofLabel (label : Text) : DiagnosticKind :=
  (all.find? fun kind => kind.label == label).getD (.other label)

structure Diagnostic where
  kind : DiagnosticKind
  severity : Severity
  file : Text
  /-- The line, counted from 1; anything below 1 means no line is known. -/
  line : Int
  message : Text
  deriving DecidableEq

namespace Diagnostic

def error (kind : DiagnosticKind) (file : Text) (line : Int) (message : Text) : Diagnostic :=
  ⟨kind, .error, file, line, message⟩

def warning (kind : DiagnosticKind) (file : Text) (line : Int) (message : Text) : Diagnostic :=
  ⟨kind, .warning, file, line, message⟩

def isError (d : Diagnostic) : Bool := d.severity == .error

def position (d : Diagnostic) : Text :=
  if d.file.isEmpty then []
  else if d.line > 0 then d.file ++ ":" ++ Text.ofInt d.line ++ ": "
  else d.file ++ ": "

def render (d : Diagnostic) : Text :=
  d.position ++ d.severity.label ++ " [" ++ d.kind.label ++ "]: " ++ d.message

def hasErrors (ds : List Diagnostic) : Bool := ds.any isError

def errorCount (ds : List Diagnostic) : Nat := ds.countP isError

def warningCount (ds : List Diagnostic) : Nat := ds.countP fun d => !d.isError

def ofKind (kind : DiagnosticKind) (ds : List Diagnostic) : List Diagnostic :=
  ds.filter fun d => d.kind == kind

def positionLe (a b : Diagnostic) : Bool :=
  if a.file == b.file then a.line ≤ b.line else Text.ble a.file b.file

/-- By file, then by line; ties keep their order. -/
def sortByPosition (ds : List Diagnostic) : List Diagnostic := ds.mergeSort positionLe

end Diagnostic

end ScriptBuild
