import ScriptBuild.Source.Expression

/-! Variable specifications `name: Type = value` and function signatures `name(params): Result`. -/

namespace ScriptBuild

open Text

inductive Quotation where
  | outside
  | inside (quote : UInt8)
  | escaped (quote : UInt8)
  deriving DecidableEq

def Quotation.step : Quotation → UInt8 → Quotation
  | .outside, b => if b == '"' || b == '\'' then .inside b else .outside
  | .inside quote, b =>
    if b == '\\' then .escaped quote else if b == quote then .outside else .inside quote
  | .escaped quote, _ => .inside quote

def beforeComment : Quotation → Text → Text
  | _, [] => []
  | q, b :: s =>
    if q == .outside && b == '/' && s.head? == some '/' then []
    else b :: beforeComment (q.step b) s

/-- A line without its comment, the blanks around it and one closing semicolon. -/
def stripComment (s : Text) : Text := dropSuffix ";" (trim (beforeComment .outside s))

def keyword (s : Text) : Text × Text :=
  let (word, rest) := cut " " (trim s)
  (word, trim rest)

inductive SignatureError where
  | invalidVariable (name : Text)
  | initializer (name : Text) (cause : ExprError)
  | malformedFunction (spec : Text)
  | invalidFunction (name : Text)
  | afterParameters (tail : Text)
  | parameter (function : Text) (cause : SignatureError)

def SignatureError.message : SignatureError → Text
  | .invalidVariable name => "invalid variable name " ++ name.quote
  | .initializer name cause => "initializer of " ++ name ++ ": " ++ cause.message
  | .malformedFunction spec => "malformed function signature " ++ spec.quote
  | .invalidFunction name => "invalid function name " ++ name.quote
  | .afterParameters tail => "unexpected " ++ tail.quote ++ " after parameters"
  | .parameter function cause => "parameter of " ++ function ++ ": " ++ cause.message

namespace Signature

def isNameByte (b : UInt8) : Bool := b == '_' || b == '$' || isAlpha b

/-- A name: letters, digits, `_` and `$`, and no digit first. -/
def isName : Text → Bool
  | [] => false
  | b :: s => isNameByte b && s.all fun b => isNameByte b || isDigit b

/-- Whether an `=` after byte `before` is part of a comparison. -/
def endsComparison (before : Option UInt8) : Bool :=
  match before with
  | some b => b == '=' || b == '!' || b == '<' || b == '>'
  | none => false

/-- What stands before and after the first `=` that is outside string literals and not part of
a comparison. `before` is the byte read last and `paired` says that the next byte belongs to `==`. -/
def splitAssign : Option UInt8 → Option UInt8 → Bool → Text → Option (Text × Text)
  | _, _, _, [] => none
  | quote, _, true, b :: s =>
    (splitAssign quote (some b) false s).map fun (left, right) => (b :: left, right)
  | some quote, _, false, b :: s =>
    (splitAssign (if b == quote then none else some quote) (some b) false s).map
      fun (left, right) => (b :: left, right)
  | none, before, false, b :: s =>
    if b == '=' && s.head? != some '=' && !endsComparison before then some ([], s)
    else
      let quote := if b == '"' || b == '\'' then some b else none
      (splitAssign quote (some b) (b == '=' && s.head? == some '=') s).map
        fun (left, right) => (b :: left, right)

/-- Parses `name[: Type] [= value]`. -/
def variableSpec (line : Nat) (spec : Text) : Except SignatureError Variable :=
  let (left, right) := (splitAssign none none false spec).getD (spec, [])
  let right := trim right
  let (name, type) := cut ":" left
  let name := trim name
  let type := trim type
  if !isName name then .error (.invalidVariable name)
  else if right.isEmpty then .ok { line, name, type }
  else
    match Expr.parse line right with
    | .ok init => .ok { line, name, type, init := some init }
    | .error e => .error (.initializer name e)

def splitParams : Int → Text → Text → List Text
  | _, part, [] => if (trim part.reverse).isEmpty then [] else [trim part.reverse]
  | depth, part, b :: s =>
    if b == ',' && depth == 0 then trim part.reverse :: splitParams depth [] s
    else
      splitParams (if b == '(' then depth + 1 else if b == ')' then depth - 1 else depth)
        (b :: part) s

def params (line : Nat) (function : Text) : List Text → Except SignatureError (List Param)
  | [] => .ok []
  | spec :: specs =>
    match variableSpec line spec with
    | .error e => .error (.parameter function e)
    | .ok v =>
      match params line function specs with
      | .error e => .error e
      | .ok ps => .ok (⟨v.name, v.type, v.init⟩ :: ps)

structure Head where
  name : Text
  params : List Param
  result : Text

/-- The text of a signature cut at its first `(` and its last `)`. -/
def cutParams (spec : Text) : Option (Text × Text × Text) :=
  match cut? "(" spec with
  | none => none
  | some (name, rest) =>
    match cutLast? ")" rest with
    | none => none
    | some (inner, tail) => some (name, inner, tail)

def functionSpec (line : Nat) (spec : Text) : Except SignatureError Head :=
  match cutParams spec with
  | none => .error (.malformedFunction spec)
  | some (name, inner, tail) =>
    let name := trim name
    let tail := trim tail
    if !isName name then .error (.invalidFunction name)
    else if !tail.isEmpty && tail.head? != some ':' then .error (.afterParameters tail)
    else
      match params line name (splitParams 0 [] inner) with
      | .error e => .error e
      | .ok ps => .ok ⟨name, ps, trim (tail.drop 1)⟩

end Signature

end ScriptBuild
