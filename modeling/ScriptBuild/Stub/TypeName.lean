import ScriptBuild.Text.Rune

/-! Type expressions of externs and the types that stubs declare for them. -/

namespace ScriptBuild

open Text

namespace TypeName

def known : List (Text × Text) :=
  [("number", "Number"), ("string", "String"), ("boolean", "Boolean"), ("Number", "Number"),
    ("String", "String"), ("Boolean", "Boolean"), ("Object", "Object"), ("Array", "Array"),
    ("Function", "Function"), ("void", "void"), ("undefined", "void"), ("*", "*"), ("?", "*")]

def opensGroup (b : UInt8) : Bool := b == '(' || b == '<' || b == '\x7b'

def closesGroup (b : UInt8) : Bool := b == ')' || b == '>' || b == '\x7d'

/-- Whether brackets close what they open, starting `depth` levels deep. -/
def isBalanced : Nat → Text → Bool
  | depth, [] => depth == 0
  | depth, b :: s =>
    if opensGroup b then isBalanced (depth + 1) s
    else if closesGroup b then
      match depth with
      | 0 => false
      | depth + 1 => isBalanced depth s
    else isBalanced depth s

def depthChange (b : UInt8) : Int :=
  if opensGroup b || b == '[' then 1 else if closesGroup b || b == ']' then -1 else 0

def splitOutside (sep : UInt8) : Int → Text → List Text
  | _, [] => [[]]
  | depth, b :: s =>
    if b == sep && depth == 0 then [] :: splitOutside sep depth s
    else
      match splitOutside sep (depth + depthChange b) s with
      | [] => [[b]]
      | part :: parts => (b :: part) :: parts

def inParens? : Text → Option Text
  | [] => none
  | b :: s =>
    if b == '(' && s.getLast? == some ')' && isBalanced 0 s.dropLast then some s.dropLast else none

/-- Takes the parentheses around a type away; `fuel` bounds how many there are. -/
def withoutParens : Nat → Text → Text
  | 0, t => t
  | fuel + 1, t =>
    match inParens? t with
    | some inner => withoutParens fuel (trim inner)
    | none => t

/-- A type without the marks of optionality, repetition and nullability around it. -/
def bare (s : Text) : Text :=
  let t := dropPrefix "..." (dropSuffix "=" (trim s))
  let t := if t.length > 1 then trimLeftBytes (fun b => b == '!' || b == '?') t else t
  withoutParens t.length t

def isAbsent (t : Text) : Bool := t == "null" || t == "undefined"

def ofSingle (t : Text) : Text :=
  if startsWith t "function" then "Function"
  else if startsWith t "\x7b" then "Object"
  else
    let t :=
      match cut? "<" t with
      | some (name, _) => dropSuffix "." name
      | none => t
    (known.lookup t).getD t

def stub (s : Text) : Text :=
  let t := bare s
  if t.isEmpty then "*"
  else
    match splitOutside '|' 0 t with
    | [] | [_] => ofSingle t
    | parts =>
      match (parts.map trim).filter fun p => !isAbsent p with
      | [part] => if part.length < s.length then stub part else "*"
      | _ => "*"
termination_by s.length

/-- The stub type of a result, which is `void` when none is given. -/
def result (s : Text) : Text := if (trim s).isEmpty then "void" else stub s

/-- The names and types of a record's fields; `none` for any other type. -/
def recordFields? (s : Text) : Option (List (Text × Text)) :=
  let t := trim s
  if !startsWith t "\x7b" || !endsWith t "\x7d" then none
  else
    some ((splitOutside ',' 0 (t.drop 1).dropLast).filterMap fun field =>
      let (name, type) := cut ":" field
      let name := trim name
      if name.isEmpty then none else some (name, trim type))

end TypeName

end ScriptBuild
