import ScriptBuild.Number.Shortest
import ScriptBuild.Yaml.Resolve

/-! Values of a wanted shape from the nodes of a document. -/

namespace ScriptBuild.Base64

def digit? (b : UInt8) : Option Nat :=
  if Text.isUpper b then some (b.toNat - 65)
  else if Text.isLower b then some (b.toNat - 71)
  else if Text.isDigit b then some (b.toNat + 4)
  else if b == '+' then some 62
  else if b == '/' then some 63
  else none

def bytes (n value : Nat) : Text :=
  [(value / 65536).toUInt8, (value / 256 % 256).toUInt8, (value % 256).toUInt8].take n

def decodeGroups : Text → Option Text
  | [] => some []
  | a :: b :: c :: d :: rest => do
    let x ← digit? a
    let y ← digit? b
    if c == '=' then
      if d == '=' && rest.isEmpty then return bytes 1 (x * 262144 + y * 4096) else none
    else
      let z ← digit? c
      if d == '=' then
        if rest.isEmpty then return bytes 2 (x * 262144 + y * 4096 + z * 64) else none
      else
        let w ← digit? d
        return bytes 3 (x * 262144 + y * 4096 + z * 64 + w) ++ (← decodeGroups rest)
  | _ => none

/-- The bytes that a text stands for; line breaks do not count. -/
def decode? (s : Text) : Option Text := decodeGroups (s.filter fun (b : UInt8) => b != '\n' && b != '\r')

end ScriptBuild.Base64

namespace ScriptBuild.Yaml

inductive Shape where
  | text
  | node
  | any
  | list (item : Shape)
  | table (item : Shape)
  | anyTable
  | record (name : Text) (fields : List (Text × Shape))
  /-- A record that is read on its own, and that knows its line. -/
  | ownRecord (name inner : Text) (fields : List (Text × Shape))

def Shape.name : Shape → Text
  | .text => "string"
  | .node => "yaml.Node"
  | .any => "interface \x7b\x7d"
  | .list item => "[]" ++ item.name
  | .table item => "map[string]" ++ item.name
  | .anyTable => "map[interface \x7b\x7d]interface \x7b\x7d"
  | .record name _ => name
  | .ownRecord name _ _ => name

inductive Value where
  | absent
  | scalar (x : Scalar)
  | node (n : Node)
  | list (items : List Value)
  | table (entries : List (Value × Value))
  | record (line : Nat) (fields : List (Text × Value))

namespace Value

def text (s : Text) : Value := .scalar (.text s)

def sameKey : Value → Value → Bool
  | .absent, .absent => true
  | .scalar .null, .scalar .null => true
  | .scalar (.bool a), .scalar (.bool b) => a == b
  | .scalar (.int a), .scalar (.int b) => a == b
  | .scalar (.float a), .scalar (.float b) => a == b
  | .scalar (.text a), .scalar (.text b) => a == b
  | .scalar (.time a), .scalar (.time b) => a == b
  | _, _ => false

def isText : Value → Bool
  | .scalar (.text _) => true
  | _ => false

def entries : Value → List (Value × Value)
  | .table es => es
  | _ => []

def fields : Value → List (Text × Value)
  | .record _ fs => fs
  | _ => []

def toText : Value → Text
  | .scalar (.text s) => s
  | _ => []

def items : Value → List Value
  | .list xs => xs
  | _ => []

def hasKey (v key : Value) : Bool := v.entries.any fun (k, _) => sameKey k key

def setKey (v key value : Value) : Value :=
  if v.hasKey key then .table (v.entries.map fun (k, x) => if sameKey k key then (k, value) else (k, x))
  else .table (v.entries ++ [(key, value)])

def field (v : Value) (name : Text) : Value := (v.fields.lookup name).getD .absent

def setField (v : Value) (name : Text) (value : Value) : Value :=
  .record 0 ((v.fields.filter fun (k, _) => k != name) ++ [(name, value)])

end Value

def shownScalar : Scalar → Text
  | .null => "interface \x7b\x7d(nil)"
  | .bool b => if b then "true" else "false"
  | .int n => if Integer.fitsInt64 n then Text.ofInt n else "0x" ++ Text.ofHex 1 n.toNat
  | .float x => FloatText.general x
  | .time t => t.shown
  | .text s => s.quote

/-- The order in which the keys of a mapping are shown: each kind of key on its own. -/
def Value.shownBefore : Value → Value → Bool
  | .scalar (.text a), .scalar (.text b) => Text.ble a b
  | .scalar (.int a), .scalar (.int b) => a ≤ b
  | .scalar (.float a), .scalar (.float b) => a ≤ b || a.isNaN
  | .scalar (.bool a), .scalar (.bool b) => !a || b
  | .scalar .null, _ => true
  | .scalar (.bool _), .scalar .null => false
  | .scalar (.bool _), _ => true
  | .scalar (.float _), .scalar (.int _) => true
  | .scalar (.float _), .scalar (.text _) => true
  | .scalar (.int _), .scalar (.text _) => true
  | _, _ => false

def sortedTexts (entries : List (Value × Text)) : List Text :=
  (entries.mergeSort fun a b => a.1.shownBefore b.1).map (·.2)

mutual

def Value.shown : Value → Text
  | .scalar x => shownScalar x
  | .list items => "[]interface \x7b\x7d\x7b" ++ Text.join ", " (shownItems items) ++ "\x7d"
  | .table entries =>
    let type : Text := if (entries.map (·.1)).all Value.isText then "string" else "interface \x7b\x7d"
    "map[" ++ type ++ "]interface \x7b\x7d\x7b" ++ Text.join ", " (sortedTexts (shownEntries entries)) ++ "\x7d"
  | _ => "interface \x7b\x7d(nil)"

def shownItems : List Value → List Text
  | [] => []
  | v :: rest => v.shown :: shownItems rest

def shownEntries : List (Value × Value) → List (Value × Text)
  | [] => []
  | (k, v) :: rest => (k, k.shown ++ ":" ++ v.shown) :: shownEntries rest

end

structure DecodeState where
  mismatches : List Mismatch := []
  /-- The aliases that are being followed. -/
  followed : List Nat := []
  /-- The keys that are settled while a mapping is merged into another. -/
  merged : Option (List Value) := none
  count : Nat := 0
  aliased : Nat := 0
  depth : Nat := 0

abbrev Decode (α : Type) := StateT DecodeState (Except Error) α

def mismatch (m : Mismatch) : Decode Unit := modify fun s => { s with mismatches := s.mismatches ++ [m] }

/-- The share of nodes that may be read through aliases. It falls for large documents. -/
def allowedShare (count : Nat) : Float :=
  if count ≤ 400000 then 0.99
  else if count ≥ 4000000 then 0.10
  else 0.99 - 0.89 * (Float.ofNat (count - 400000) / 3600000)

def countNode : Decode Unit := do
  let s ← get
  let count := s.count + 1
  let aliased := if s.depth > 0 then s.aliased + 1 else s.aliased
  if aliased > 100 && count > 1000 && Float.ofNat aliased / Float.ofNat count > allowedShare count then
    throw .excessiveAliasing
  set { s with count, aliased }

abbrev Decoded := Value × Bool

def unfit (n : Node) (tag : Text) (shape : Shape) (old : Value) : Decode Decoded := do
  mismatch (.type n.line tag n.value shape.name)
  return (old, false)

/-- Nothing in place of a value. Only shapes that can be empty take it. -/
def decodeNull (shape : Shape) (old : Value) : Decoded :=
  match shape with
  | .any => (.scalar .null, true)
  | .list _ | .table _ | .anyTable => (.absent, true)
  | _ => (old, false)

def decodeScalar (n : Node) (tag value : Text) (shape : Shape) (old : Value) : Decode Decoded := do
  let x ← (resolve tag value : Except Error Scalar)
  let x ←
    if tag == "!!binary" then
      match Base64.decode? value with
      | some bytes => pure (Scalar.text bytes)
      | none => throw Error.invalidBinary
    else pure x
  match x, shape with
  | .null, _ => return decodeNull shape old
  | .text s, .text => return (.text s, true)
  | _, .text => return (.text value, true)
  | x, .any => return (.scalar x, true)
  | _, _ => unfit n tag shape old

def hasTextKeys (d : Document) (pairs : List (Node × Node)) : Bool :=
  pairs.all fun (k, _) => d.tagOf k == "!!str" || d.tagOf k == "!!merge"

/-- Keys that occur before, each with its line and that of the key before it. -/
def duplicateKeys : List (Node × Node) → List Mismatch
  | [] => []
  | (k, _) :: rest =>
    (rest.filterMap fun (other, _) =>
      if k.sameKey other then some (.duplicateKey other.line other.value k.line) else none) ++ duplicateKeys rest

def claimKey (merged : Option (List Value)) (key : Value) : Option (Option (List Value)) :=
  match merged with
  | none => some none
  | some keys => if keys.any (Value.sameKey key) then none else some (some (key :: keys))

def isMapping (d : Document) : Node → Bool
  | .mapping _ _ _ => true
  | .alias _ _ n _ =>
    match d.target? n with
    | some (.mapping _ _ _) => true
    | _ => false
  | _ => false

mutual

/-- Reads a node as a value of a shape; `old` is what was there before. -/
def decode (d : Document) : Nat → Shape → Value → Node → Decode Decoded
  | 0, _, old, _ => return (old, false)
  | fuel + 1, shape, old, n => do
    countNode
    if let .node := shape then return (.node n, true)
    if let .alias _ name target place := n then
      if (← get).followed.contains place then throw (.recursiveAnchor name)
      modify fun s => { s with followed := place :: s.followed, depth := s.depth + 1 }
      let r ← decode d fuel shape old ((d.target? target).getD (.scalar 0 "!!null" []))
      modify fun s => { s with followed := s.followed.filter (· != place), depth := s.depth - 1 }
      return r
    if let .ownRecord _ inner fields := shape then
      if d.tagOf n != "!!null" then
        let (r, s) ← ((decode d fuel (.record inner fields) .absent n).run {} : Except Error _)
        if s.mismatches.isEmpty then return (.record n.line r.1.fields, true)
        modify fun t => { t with mismatches := t.mismatches ++ s.mismatches }
        return (old, false)
    match n with
    | .scalar _ tag value => decodeScalar n tag value shape old
    | .sequence _ tag items =>
      match shape with
      | .list item => return (.list (← decodeItems d fuel item items), true)
      | .any => return (.list (← decodeItems d fuel .any items), true)
      | _ => unfit n tag shape old
    | .mapping _ tag pairs =>
      let duplicates := duplicateKeys pairs
      if !duplicates.isEmpty then
        duplicates.forM mismatch
        return (old, false)
      match shape with
      | .record _ _ | .table _ | .anyTable => return (← decodeMapping d fuel shape old pairs, true)
      | .ownRecord name _ fields => return (← decodeMapping d fuel (.record name fields) old pairs, true)
      | .any =>
        let shape := if hasTextKeys d pairs then .table .any else .anyTable
        return (← decodeMapping d fuel shape .absent pairs, true)
      | _ => unfit n tag shape old
    | .alias _ _ _ _ => return (old, false)

def decodeItems (d : Document) : Nat → Shape → List Node → Decode (List Value)
  | 0, _, _ => return []
  | _ + 1, _, [] => return []
  | fuel + 1, shape, n :: ns => do
    let (v, ok) ← decode d fuel shape .absent n
    let vs ← decodeItems d fuel shape ns
    return if ok then v :: vs else vs

def decodeMapping (d : Document) : Nat → Shape → Value → List (Node × Node) → Decode Value
  | 0, _, old, _ => return old
  | fuel + 1, shape, old, pairs => do
    let merged := (← get).merged
    modify fun s => { s with merged := none }
    let entries (key item : Shape) : Decode (Value × Option (List Value)) :=
      decodeEntries d fuel key item old.entries.isEmpty (.table old.entries) merged pairs
    let (v, merged) ←
      match shape with
      | .record name fields => decodeFields d fuel name fields [] (.record 0 old.fields) merged pairs
      | .table item => entries .text item
      | _ => entries .any .any
    modify fun s => { s with merged }
    match (pairs.filter fun (k, _) => k.isMerge).getLast? with
    | none => return v
    | some (_, source) => merge d fuel shape v pairs source

def decodeEntries (d : Document) : Nat → Shape → Shape → Bool → Value → Option (List Value) → List (Node × Node) →
    Decode (Value × Option (List Value))
  | 0, _, _, _, v, merged, _ => return (v, merged)
  | _ + 1, _, _, _, v, merged, [] => return (v, merged)
  | fuel + 1, key, item, isNew, v, merged, (k, x) :: rest => do
    if k.isMerge then return ← decodeEntries d fuel key item isNew v merged rest
    let (kv, true) ← decode d fuel key .absent k | decodeEntries d fuel key item isNew v merged rest
    let some merged := claimKey merged kv | decodeEntries d fuel key item isNew v merged rest
    if kv matches .list _ | .table _ then throw (.invalidKey kv.shown)
    let (xv, ok) ← decode d fuel item .absent x
    let keeps := ok || (d.tagOf x == "!!null" && (isNew || !v.hasKey kv))
    decodeEntries d fuel key item isNew (if keeps then v.setKey kv xv else v) merged rest

def decodeFields (d : Document) : Nat → Text → List (Text × Shape) → List Text → Value → Option (List Value) →
    List (Node × Node) → Decode (Value × Option (List Value))
  | 0, _, _, _, v, merged, _ => return (v, merged)
  | _ + 1, _, _, _, v, merged, [] => return (v, merged)
  | fuel + 1, name, fields, done, v, merged, (k, x) :: rest => do
    let skip := decodeFields d fuel name fields done v
    if k.isMerge then return ← skip merged rest
    let (kv, true) ← decode d fuel .text .absent k | skip merged rest
    let some merged := claimKey merged kv | skip merged rest
    let key := kv.toText
    let some shape := fields.lookup key | skip merged rest
    if done.contains key then
      mismatch (.duplicateField k.line key name)
      skip merged rest
    else
      let (xv, _) ← decode d fuel shape (v.field key) x
      decodeFields d fuel name fields (key :: done) (v.setField key xv) merged rest

/-- Adds what a mapping lacks from another mapping, or from several. What is settled by one of them
is settled for those that come after it. -/
def merge (d : Document) : Nat → Shape → Value → List (Node × Node) → Node → Decode Value
  | 0, _, v, _, _ => return v
  | fuel + 1, shape, v, pairs, source => do
    let before := (← get).merged
    if before.isNone then
      let keys ← decodeItems d fuel .any (pairs.map (·.1))
      modify fun s => { s with merged := some keys }
    let sources :=
      match source with
      | .sequence _ _ items => items
      | n => [n]
    let v ← mergeAll d fuel shape v sources
    if before.isNone then modify fun s => { s with merged := none }
    return v

def mergeAll (d : Document) : Nat → Shape → Value → List Node → Decode Value
  | 0, _, v, _ => return v
  | _ + 1, _, v, [] => return v
  | fuel + 1, shape, v, n :: ns => do
    if !isMapping d n then throw .noMergeMap
    let (v, _) ← decode d fuel shape v n
    mergeAll d fuel shape v ns

end

def Document.decode (d : Document) (shape : Shape) (fuel : Nat) : Except Error Value :=
  match d.root with
  | none => .ok .absent
  | some n =>
    match (Yaml.decode d fuel shape .absent n).run { count := 1 } with
    | .error e => .error e
    | .ok ((v, _), s) => if s.mismatches.isEmpty then .ok v else .error (.mismatches s.mismatches)

end ScriptBuild.Yaml
