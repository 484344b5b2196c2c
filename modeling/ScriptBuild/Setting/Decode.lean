import ScriptBuild.Duration
import ScriptBuild.Setting.Basic

/-! Typed values of settings. -/

namespace ScriptBuild

inductive MisfitCause where
  | unconvertible (wanted got : Text)
  | unparsable (wanted reader : Text) (fault : Integer.Fault)
  | notTable (kind : Text)
  | unassignable (got wanted : Text)
  | duration (cause : DurationError)

structure Misfit where
  name : Text
  cause : MisfitCause

def Misfit.message (m : Misfit) : Text :=
  "'" ++ m.name ++ "' " ++
    match m.cause with
    | .unconvertible wanted got => "expected type '" ++ wanted ++ "', got unconvertible type '" ++ got ++ "'"
    | .unparsable wanted reader fault => "cannot parse value as '" ++ wanted ++ "': " ++ reader ++ ": " ++ fault.message
    | .notTable kind => "expected a map or struct, got \"" ++ kind ++ "\""
    | .unassignable got wanted =>
      "cannot assign type \"" ++ got ++ "\" to map value field of type \"" ++ wanted ++ "\""
    | .duration cause => cause.brief

abbrev ReadSetting (α : Type) := StateM (List Misfit) α

namespace ReadSetting

def misfit {α : Type} (name : Text) (cause : MisfitCause) (fallback : α) : ReadSetting α := do
  modify fun ms => ms ++ [⟨name, cause⟩]
  return fallback

def unconvertible {α : Type} (name wanted : Text) (s : Setting) (fallback : α) : ReadSetting α :=
  misfit name (.unconvertible wanted s.typeName) fallback

def text (name : Text) (s : Setting) : ReadSetting Text :=
  match s with
  | .null => pure []
  | .text t => pure t
  | .bool b => pure (if b then "1" else "0")
  | .integer _ n => pure (Text.ofInt n)
  | .float x => pure (FloatText.plain x)
  | s => unconvertible name "string" s []

/-- The whole part of a number; numbers that do not fit give the least integer. -/
def truncate (x : Float) : Int :=
  if x.isNaN || x ≥ 9223372036854775808.0 || x < -9223372036854775808.0 then -0x8000000000000000 else x.toInt64.toInt

def integer (type name : Text) (s : Setting) : ReadSetting Int :=
  match s with
  | .null => pure 0
  | .integer _ n => pure (Integer.toInt64 n)
  | .float x => pure (truncate x)
  | .bool b => pure (if b then 1 else 0)
  | .text t =>
    match Integer.parse (if t.isEmpty then "0" else t) with
    | .ok n => pure n
    | .error fault => misfit name (.unparsable type "strconv.ParseInt" fault) 0
  | s => unconvertible name type s 0

def duration (name : Text) (s : Setting) : ReadSetting Duration :=
  match s with
  | .text t =>
    match Duration.ofText t with
    | .ok d => pure d
    | .error e => misfit name (.duration e) ⟨0⟩
  | s => do return ⟨← integer "time.Duration" name s⟩

def bool (name : Text) (s : Setting) : ReadSetting Bool :=
  match s with
  | .null => pure false
  | .bool b => pure b
  | .integer _ n => pure (n != 0)
  | .float x => pure (x != 0.0)
  | .text t =>
    match Text.toBool? (if t.isEmpty then "0" else t) with
    | some b => pure b
    | none => misfit name (.unparsable "bool" "strconv.ParseBool" .malformed) false
  | s => unconvertible name "bool" s false

def float (name : Text) (s : Setting) : ReadSetting Float :=
  match s with
  | .null => pure 0.0
  | .integer _ n => pure (Float.ofInt n)
  | .float x => pure x
  | .bool b => pure (if b then 1.0 else 0.0)
  | .text t =>
    match Decimal.parseFloat (if t.isEmpty then "0" else t) with
    | .ok x => pure x
    | .error fault => misfit name (.unparsable "float64" "strconv.ParseFloat" fault) 0.0
  | s => unconvertible name "float64" s 0.0

/-- The items that a setting stands for; commas divide a text. -/
def itemsOf : Setting → List Setting
  | .null => []
  | .list items => items
  | .table [] => []
  | .text [] => []
  | .text t => (Text.split ',' t).map .text
  | s => [s]

def list {α : Type} (item : Text → Setting → ReadSetting α) (name : Text) (s : Setting) : ReadSetting (List α) :=
  (itemsOf s).zipIdx.mapM fun (x, i) => item (name ++ "[" ++ Text.ofNat i ++ "]") x

def texts (name : Text) (s : Setting) : ReadSetting (List Text) := list text name s

/-- A point in time as a table of values. It fails at its first part, since no part is a value of the table. -/
def momentTable {α : Type} (type name : Text) (old : Dictionary α) (moment : MomentType) : ReadSetting (Dictionary α) :=
  let wanted := type.drop "map[string]".length
  match moment.firstPart? with
  | none => pure old
  | some (part, got) => misfit (name ++ "." ++ part) (.unassignable got wanted) old

mutual

/-- A table of values. Tables in a list are merged, up to the first that does not fit. -/
def table {α : Type} (type : Text) (item : Text → Setting → ReadSetting α) (name : Text) (old : Dictionary α) :
    Setting → ReadSetting (Dictionary α)
  | .null => pure old
  | .moment m => momentTable type name old m
  | .table members => tableMembers item name old members
  | .list items => tableItems type item name 0 old items
  | s => unconvertible name type s old

def tableItems {α : Type} (type : Text) (item : Text → Setting → ReadSetting α) (name : Text) (i : Nat)
    (old : Dictionary α) : List Setting → ReadSetting (Dictionary α)
  | [] => pure old
  | s :: rest => do
    let before := (← get).length
    let new ← table type item (name ++ "[" ++ Text.ofNat i ++ "]") old s
    if (← get).length > before then return new
    tableItems type item name (i + 1) new rest

def tableMembers {α : Type} (item : Text → Setting → ReadSetting α) (name : Text) (old : Dictionary α) :
    List (Text × Setting) → ReadSetting (Dictionary α)
  | [] => pure old
  | (key, s) :: rest => do
    let before := (← get).length
    let value ← item (name ++ "[" ++ key ++ "]") s
    let new := if (← get).length > before then old else old.insert key value
    tableMembers item name new rest

end

def textTable (name : Text) (s : Setting) : ReadSetting (Dictionary Text) :=
  table "map[string]string" text name [] s

structure Section where
  name : Text
  members : Dictionary Setting

def sectionOf (name : Text) (s : Setting) : ReadSetting Section :=
  match s with
  | .null | .moment _ => pure ⟨name, []⟩
  | .table ms => pure ⟨name, ms⟩
  | s => misfit name (.notTable s.kindName) ⟨name, []⟩

def Section.find? (s : Section) (key : Text) : Option Setting :=
  (s.members.find? key).or ((List.find? (fun (other, _) => Text.isName key other) s.members).map (·.2))

def Section.get {α : Type} (s : Section) (key : Text) (read : Text → Setting → ReadSetting α) : ReadSetting α :=
  read (s.name ++ "." ++ key) ((s.find? key).getD .null)

end ReadSetting

end ScriptBuild
