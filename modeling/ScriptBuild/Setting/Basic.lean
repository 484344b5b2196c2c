import ScriptBuild.Dictionary
import ScriptBuild.Json.Parse
import ScriptBuild.Text.LetterCase
import ScriptBuild.Yaml.Compose
import ScriptBuild.Yaml.Decode

/-! Settings: values of a configuration before they are given a type. -/

namespace ScriptBuild

open Text

inductive IntegerType where
  | word
  | signed
  | unsigned
  | duration
  deriving DecidableEq

/-- A point in time, or a part of what one needs. -/
inductive MomentType where
  | instant
  | localDateTime
  | localDate
  | localTime
  deriving DecidableEq

/-- The first part of a moment that can be told from outside, and the type of the part. -/
def MomentType.firstPart? : MomentType → Option (Text × Text)
  | .instant => none
  | .localDateTime => some ("LocalDate", "toml.LocalDate")
  | .localDate => some ("Year", "int")
  | .localTime => some ("Hour", "int")

inductive Setting where
  | null
  | bool (b : Bool)
  | integer (type : IntegerType) (n : Int)
  | float (x : Float)
  | text (s : Text)
  | moment (type : MomentType)
  | list (items : List Setting)
  | table (members : List (Text × Setting))

namespace Setting

def isNull : Setting → Bool
  | .null => true
  | _ => false

def typeName : Setting → Text
  | .null => "<nil>"
  | .bool _ => "bool"
  | .integer .word _ => "int"
  | .integer .signed _ => "int64"
  | .integer .unsigned _ => "uint64"
  | .integer .duration _ => "time.Duration"
  | .float _ => "float64"
  | .text _ => "string"
  | .moment .instant => "time.Time"
  | .moment .localDateTime => "toml.LocalDateTime"
  | .moment .localDate => "toml.LocalDate"
  | .moment .localTime => "toml.LocalTime"
  | .list _ => "[]interface \x7b\x7d"
  | .table _ => "map[string]interface \x7b\x7d"

def kindName : Setting → Text
  | .integer .duration _ => "int64"
  | .moment _ => "struct"
  | .list _ => "slice"
  | .table _ => "map"
  | s => s.typeName

mutual

def lowered : Setting → Setting
  | .list items => .list (loweredItems items)
  | .table members => .table (loweredMembers members)
  | s => s

def loweredItems : List Setting → List Setting
  | [] => []
  | s :: rest => lowered s :: loweredItems rest

/-- Of keys that are equal in lower case, one that was not in lower case counts. -/
def loweredMembers : List (Text × Setting) → List (Text × Setting)
  | [] => []
  | (key, s) :: rest =>
    let lower := lower key
    let others := loweredMembers rest
    if lower != key then (lower, lowered s) :: Dictionary.erase others lower
    else if (Dictionary.find? others lower).isSome then others
    else (lower, lowered s) :: others

end

def ofScalar : Yaml.Scalar → Setting
  | .null => .null
  | .bool b => .bool b
  | .int n => .integer (if Integer.fitsInt64 n then .word else .unsigned) n
  | .float x => .float x
  | .time _ => .moment .instant
  | .text s => .text s

def keyText : Yaml.Value → Text
  | .scalar (.bool b) => if b then "true" else "false"
  | .scalar (.int n) => ofInt n
  | .scalar (.float x) => FloatText.plain x
  | .scalar (.text s) => s
  | .scalar (.time t) => t.text
  | _ => []

mutual

def ofYaml : Yaml.Value → Setting
  | .scalar x => ofScalar x
  | .list items => .list (ofYamlItems items)
  | .table entries => .table (ofYamlEntries entries)
  | _ => .null

def ofYamlItems : List Yaml.Value → List Setting
  | [] => []
  | v :: rest => ofYaml v :: ofYamlItems rest

def ofYamlEntries : List (Yaml.Value × Yaml.Value) → List (Text × Setting)
  | [] => []
  | (key, v) :: rest => (keyText key, ofYaml v) :: ofYamlEntries rest

end

/-- A number that is too large, and the keys and positions that lead to it. -/
structure LargeNumber where
  path : List Text
  number : Text

mutual

/-- The setting of a value. It fails with the first number that is too large. -/
def ofJson (path : List Text) : Json → Except LargeNumber Setting
  | .null => .ok .null
  | .bool b => .ok (.bool b)
  | .number s =>
    match Decimal.parseFloat s with
    | .ok x => .ok (.float x)
    | .error _ => .error ⟨path, s⟩
  | .string s => .ok (.text s)
  | .array xs => (ofJsonItems path 0 xs).map .list
  | .object members => (ofJsonMembers path members).map fun ms => .table (Dictionary.ofList ms)

def ofJsonItems (path : List Text) (position : Nat) : List Json → Except LargeNumber (List Setting)
  | [] => .ok []
  | x :: rest => do return (← ofJson (path ++ [ofNat position]) x) :: (← ofJsonItems path (position + 1) rest)

def ofJsonMembers (path : List Text) : List (Text × Json) → Except LargeNumber (List (Text × Setting))
  | [] => .ok []
  | (key, x) :: rest => do return (key, ← ofJson (path ++ [key]) x) :: (← ofJsonMembers path rest)

end

end Setting

structure SettingSources where
  lead : Text
  environment : Dictionary Text := []
  file : Dictionary Setting := []
  defaults : Dictionary Setting := []

namespace SettingSources

def variableName (lead key : Text) : Text :=
  replaceByte '.' '_' (upper (lead ++ "_" ++ key))

/-- The variable for a key, unless it is empty. -/
def fromEnvironment? (s : SettingSources) (key : Text) : Option Text :=
  (s.environment.find? (variableName s.lead key)).filter fun value => !value.isEmpty

def parents (path : List Text) : List (List Text) := (List.range (path.length - 1)).map fun n => path.take (n + 1)

def pathText (path : List Text) : Text := join "." path

def descend : Dictionary Setting → List Text → Option Setting
  | members, [] => some (.table members)
  | members, [key] => members.find? key
  | members, key :: rest =>
    match members.find? key with
    | some (.table inner) => descend inner rest
    | _ => none

def isShadowed (members : Dictionary Setting) (path : List Text) : Bool :=
  match (parents path).find? fun p => match descend members p with
      | some (.table _) => false
      | _ => true with
  | none => false
  | some p => ((descend members p).map fun s => !s.isNull).getD false

/-- The setting at a path, where several parts may make one key; more parts are tried first. -/
def search : Nat → Dictionary Setting → List Text → Option Setting
  | 0, _, _ => none
  | fuel + 1, members, path =>
    (List.range path.length).reverse.findSome? fun n => do
      match ← members.find? (pathText (path.take (n + 1))), path.drop (n + 1) with
      | s, [] => if s.isNull then none else some s
      | .table inner, rest => search fuel inner rest
      | _, _ => none

def fromDefaults? (s : SettingSources) (path : List Text) : Option Setting :=
  (descend s.defaults path).filter fun v => !v.isNull

def find? (s : SettingSources) (key : Text) : Option Setting :=
  let path := split '.' key
  ((s.fromEnvironment? key).map .text).or
    (if (parents path).any fun p => (s.fromEnvironment? (pathText p)).isSome then none
    else (search path.length s.file path).or (if isShadowed s.file path then none else s.fromDefaults? path))

mutual

/-- Adds the keys of a setting below a path, unless the path is known as a key itself. The keys below
the empty path stand on their own. -/
def addKeys (known : List Text) (path : Text) : Setting → List Text
  | .table members =>
    if path.isEmpty then addMemberKeys known [] members
    else if known.contains path then known
    else addMemberKeys known (path ++ ".") members
  | _ => if known.contains path then known else known ++ [path]

def addMemberKeys (known : List Text) (lead : Text) : List (Text × Setting) → List Text
  | [] => known
  | (key, s) :: rest => addMemberKeys (addKeys known (lead ++ key) s) lead rest

end

def keys (s : SettingSources) : List Text := addMemberKeys (addMemberKeys [] [] s.file) [] s.defaults

/-- Sets the setting at a path; what is in the way gives way to tables. -/
def insertAt (value : Setting) : List Text → Dictionary Setting → Dictionary Setting
  | [], members => members
  | [key], members => members.insert key value
  | key :: rest, members =>
    let inner :=
      match members.find? key with
      | some (.table inner) => inner
      | _ => []
    members.insert key (.table (insertAt value rest inner))

def resolve (s : SettingSources) : Dictionary Setting :=
  s.keys.foldl (fun acc key =>
    match s.find? key with
    | none => acc
    | some value => insertAt value (split '.' key) acc) []

end SettingSources

end ScriptBuild
