import ScriptBuild.Diagnostic
import ScriptBuild.Source.Signature

/-! Statements of a function body. -/

namespace ScriptBuild

namespace Block

inductive Part where
  | yes
  | no (yes : List Statement)
  | loop

/-- An open block. A condition that did not parse is missing. Statements stand in reverse. -/
structure Frame where
  line : Nat
  condition : Option Expr
  part : Part
  statements : List Statement := []

structure Reader where
  file : Text
  /-- Open blocks, the innermost first. -/
  frames : List Frame := []
  /-- The statements outside open blocks, the last one first. -/
  statements : List Statement := []
  /-- The last diagnostic first. -/
  diagnostics : List Diagnostic := []

def Reader.report (r : Reader) (line : Nat) (message : Text) : Reader :=
  { r with diagnostics := .error .parse r.file line message :: r.diagnostics }

def Reader.add (r : Reader) (s : Statement) : Reader :=
  match r.frames with
  | [] => { r with statements := s :: r.statements }
  | frame :: frames => { r with frames := { frame with statements := s :: frame.statements } :: frames }

def Reader.open (r : Reader) (line : Nat) (text : Text) (part : Part) : Reader :=
  match Expr.parse line text with
  | .ok x => { r with frames := ⟨line, some x, part, []⟩ :: r.frames }
  | .error e =>
    let r := r.report line e.message
    { r with frames := ⟨line, none, part, []⟩ :: r.frames }

/-- The statement that a closed block completes, if its condition parsed. -/
def Frame.statement (f : Frame) : Option Statement :=
  f.condition.map fun condition =>
    match f.part with
    | .yes => .ifThen f.line condition f.statements.reverse
    | .no yes => .ifThenElse f.line condition yes f.statements.reverse
    | .loop => .loop f.line condition f.statements.reverse

def Reader.close (r : Reader) (frame : Frame) (frames : List Frame) : Reader :=
  let r := { r with frames }
  match frame.statement with
  | some s => r.add s
  | none => r

def Reader.unexpected (r : Reader) (line : Nat) (word : Text) : Reader :=
  r.report line ("unexpected " ++ word.quote)

def Reader.endLine (r : Reader) (line : Nat) : Reader :=
  match r.frames with
  | [] => r.unexpected line "end"
  | frame :: frames => r.close frame frames

def Reader.elseLine (r : Reader) (line : Nat) : Reader :=
  match r.frames with
  | ⟨opened, condition, .yes, statements⟩ :: frames =>
    { r with frames := ⟨opened, condition, .no statements.reverse, []⟩ :: frames }
  | _ => r.unexpected line "else"

def Reader.addVariable (r : Reader) (line : Nat) (isConst : Bool) (spec : Text) : Reader :=
  match Signature.variableSpec line spec with
  | .ok v => r.add (.variable line { v with isConst })
  | .error e => r.report line e.message

def Reader.result (r : Reader) (line : Nat) (text : Text) : Reader :=
  if text.isEmpty then r.add (.result line none)
  else
    match Expr.parse line text with
    | .ok x => r.add (.result line (some x))
    | .error e => r.report line e.message

def Reader.expression (r : Reader) (line : Nat) (text : Text) : Reader :=
  match Expr.parse line text with
  | .ok x => r.add (.expression line x)
  | .error e => r.report line e.message

def Reader.line (r : Reader) (number : Nat) (text : Text) : Reader :=
  let (word, rest) := keyword text
  if word == "var" then r.addVariable number false rest
  else if word == "const" then r.addVariable number true rest
  else if word == "return" then r.result number rest
  else if word == "if" then r.open number rest .yes
  else if word == "while" then r.open number rest .loop
  else if word == "else" then r.elseLine number
  else if word == "end" then r.endLine number
  else r.expression number text

def Reader.step (r : Reader) (l : SourceLine) : Reader :=
  let text := stripComment (Text.trim l.text)
  if text.isEmpty then r else r.line l.number text

def Part.keyword : Part → Text
  | .yes | .no _ => "if"
  | .loop => "while"

/-- Reports the innermost block as open at the end of the body and closes it. -/
def Reader.closeOpen (r : Reader) : Reader :=
  match r.frames with
  | [] => r
  | frame :: frames =>
    (r.report frame.line ("missing end for " ++ frame.part.keyword)).close frame frames

def Reader.finish (r : Reader) : Reader := r.frames.foldl (fun r _ => r.closeOpen) r

end Block

def Body.parse (b : Body) : Block × List Diagnostic :=
  match b.lines with
  | [] => (⟨b.line, []⟩, [])
  | first :: _ =>
    let r := (b.lines.foldl Block.Reader.step { file := b.file }).finish
    (⟨first.number, r.statements.reverse⟩, r.diagnostics.reverse)

end ScriptBuild
