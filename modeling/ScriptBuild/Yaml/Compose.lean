import ScriptBuild.Yaml.Resolve
import ScriptBuild.Yaml.Stream

/-! Documents from their tokens. -/

namespace ScriptBuild.Yaml

structure Composer where
  handles : List (Text × Text) := []
  /-- The number of the node that each anchor last stood for. -/
  anchors : List (Text × Nat) := []
  count : Nat := 0
  anchored : List (Nat × Node) := []

abbrev Compose (α : Type) := StateT Composer (StateT Scanner (Except Error)) α

def next : Compose Token := liftM (m := StateT Scanner (Except Error)) nextToken

def discard : Compose Unit := liftM (m := StateT Scanner (Except Error)) dropToken

def advance : Compose Token := do
  discard
  next

def fail {α : Type} (context : Mark) (p : Text) (here : Mark) : Compose α :=
  liftM (m := StateT Scanner (Except Error)) (failParse context p here)

def emptyScalar (m : Mark) : Node := .scalar (m.line + 1) "!!null" []

/-- Makes a node, which gets the next number if it has an anchor. -/
def anchored (name : Option Text) (make : Compose Node) : Compose Node := do
  match name with
  | none => make
  | some name =>
    let number := (← get).count
    modify fun s => { s with anchors := (name, number) :: s.anchors, count := number + 1 }
    let n ← make
    modify fun s => { s with anchored := (number, n) :: s.anchored }
    return n

structure Properties where
  start : Mark
  anchor : Option Text := none
  tag : Option (Text × Text) := none
  tagMark : Mark := {}

/-- An anchor and a tag, in either order, and the token after them. -/
def properties (t : Token) : Compose (Properties × Token) := do
  match t.kind with
  | .anchor name =>
    let u ← advance
    match u.kind with
    | .tag handle suffix => return (⟨t.start, some name, some (handle, suffix), u.start⟩, ← advance)
    | _ => return (⟨t.start, some name, none, {}⟩, u)
  | .tag handle suffix =>
    let u ← advance
    match u.kind with
    | .anchor name => return (⟨t.start, some name, some (handle, suffix), t.start⟩, ← advance)
    | _ => return (⟨t.start, none, some (handle, suffix), t.start⟩, u)
  | _ => return (⟨t.start, none, none, {}⟩, t)

/-- The tag with its handle replaced; an empty one counts as none. -/
def expandTag (p : Properties) : Compose Text := do
  match p.tag with
  | none => return []
  | some (handle, suffix) =>
    if handle.isEmpty then return suffix
    else
      let tag := (((← get).handles.lookup handle).map (· ++ suffix)).getD []
      if tag.isEmpty then fail p.start "found undefined tag handle" p.tagMark
      return tag

/-- The tag that a node gets: its own, or else one that its content suggests. -/
def nodeTag (own : Text) (default : Text) : Text := if own.isEmpty || own == "!" then default else shortTag own

def scalarTag (value : Text) (isPlain : Bool) : Text :=
  if !isPlain then "!!str" else if value == "<<" then "!!merge" else (implicitScalar true value).tag

def isBlockBoundary : TokenKind → Bool
  | .key | .value | .blockEnd => true
  | _ => false

/-- The token that begins the next entry of a flow collection, if there is one. -/
def flowEntry? (start : Mark) (isFirst : Bool) (stop : TokenKind) (p : Text) : Compose (Option Token) := do
  let mut t ← next
  if t.kind != stop && !isFirst then
    if t.kind != .flowEntry then fail start p t.start
    t ← advance
  if t.kind == stop then
    discard
    return none
  return some t

mutual

def node (isBlock isIndentless : Bool) : Nat → Token → Compose Node
  | 0, t => fail t.start "did not find expected node content" t.start
  | fuel + 1, t => do
    if let .alias name := t.kind then
      match (← get).anchors.lookup name with
      | none => throw (.unknownAnchor name)
      | some i =>
        discard
        return .alias (t.start.line + 1) name i t.start.index
    let (p, t) ← properties t
    let tag ← expandTag p
    let line := p.start.line + 1
    anchored p.anchor do
      match t.kind, isBlock, isIndentless with
      | .blockEntry, _, true => return .sequence line (nodeTag tag "!!seq") (← blockItems none fuel)
      | .scalar value isPlain, _, _ =>
        discard
        return .scalar line (nodeTag tag (scalarTag value isPlain)) value
      | .flowSequenceStart, _, _ =>
        discard
        return .sequence line (nodeTag tag "!!seq") (← flowItems t.start true fuel)
      | .flowMappingStart, _, _ =>
        discard
        return .mapping line (nodeTag tag "!!map") (← flowPairs t.start true fuel)
      | .blockSequenceStart, true, _ =>
        discard
        return .sequence line (nodeTag tag "!!seq") (← blockItems (some t.start) fuel)
      | .blockMappingStart, true, _ =>
        discard
        return .mapping line (nodeTag tag "!!map") (← blockPairs t.start fuel)
      | _, _, _ =>
        if p.anchor.isNone && tag.isEmpty then fail p.start "did not find expected node content" t.start
        return .scalar line (nodeTag tag "!!null") []

/-- The items of a block sequence. One without a start has the indentation of what is around it. -/
def blockItems (start : Option Mark) : Nat → Compose (List Node)
  | 0 => return []
  | fuel + 1 => do
    let t ← next
    match t.kind, start with
    | .blockEntry, _ =>
      let u ← advance
      let isEmpty := u.kind == .blockEntry || u.kind == .blockEnd || (start.isNone && isBlockBoundary u.kind)
      let item ← if isEmpty then pure (emptyScalar t.stop) else node true false fuel u
      return item :: (← blockItems start fuel)
    | _, none => return []
    | .blockEnd, _ =>
      discard
      return []
    | _, some start => fail start "did not find expected '-' indicator" t.start

def blockPairs (start : Mark) : Nat → Compose (List (Node × Node))
  | 0 => return []
  | fuel + 1 => do
    let t ← next
    match t.kind with
    | .key =>
      let u ← advance
      let key ← if isBlockBoundary u.kind then pure (emptyScalar t.stop) else node true true fuel u
      let value ← blockValue fuel
      return (key, value) :: (← blockPairs start fuel)
    | .blockEnd =>
      discard
      return []
    | _ => fail start "did not find expected key" t.start

def blockValue : Nat → Compose Node
  | 0 => return emptyScalar {}
  | fuel + 1 => do
    let t ← next
    match t.kind with
    | .value =>
      let u ← advance
      if isBlockBoundary u.kind then return emptyScalar t.stop else node true true fuel u
    | _ => return emptyScalar t.start

def flowItems (start : Mark) (isFirst : Bool) : Nat → Compose (List Node)
  | 0 => return []
  | fuel + 1 => do
    let some t ← flowEntry? start isFirst .flowSequenceEnd "did not find expected ',' or ']'" | return []
    match t.kind with
    | .key =>
      discard
      let key ← flowItemKey fuel
      let value ← flowValue true fuel
      let _ ← next
      return .mapping (t.start.line + 1) "!!map" [(key, value)] :: (← flowItems start false fuel)
    | _ =>
      let item ← node false false fuel t
      return item :: (← flowItems start false fuel)

/-- The key of a pair that stands alone in a flow sequence. If it is missing, the token in its
place is passed over. -/
def flowItemKey : Nat → Compose Node
  | 0 => return emptyScalar {}
  | fuel + 1 => do
    let t ← next
    match t.kind with
    | .value | .flowEntry | .flowSequenceEnd =>
      discard
      return emptyScalar t.stop
    | _ => node false false fuel t

def flowPairs (start : Mark) (isFirst : Bool) : Nat → Compose (List (Node × Node))
  | 0 => return []
  | fuel + 1 => do
    let some t ← flowEntry? start isFirst .flowMappingEnd "did not find expected ',' or '\x7d'" | return []
    match t.kind with
    | .key =>
      let u ← advance
      let key ← match u.kind with
        | .value | .flowEntry | .flowMappingEnd => pure (emptyScalar u.start)
        | _ => node false false fuel u
      let value ← flowValue false fuel
      return (key, value) :: (← flowPairs start false fuel)
    | _ =>
      let key ← node false false fuel t
      let u ← next
      return (key, emptyScalar u.start) :: (← flowPairs start false fuel)

/-- The value of a pair, which may stand alone in a flow sequence. -/
def flowValue (isAlone : Bool) : Nat → Compose Node
  | 0 => return emptyScalar {}
  | fuel + 1 => do
    let t ← next
    if t.kind != .value then return emptyScalar t.start
    let u ← advance
    if u.kind == .flowEntry || u.kind == (if isAlone then .flowSequenceEnd else .flowMappingEnd) then
      return emptyScalar (if isAlone then t.start else u.start)
    node false false fuel u

end

def directives (hasVersion : Bool) : Nat → Compose Token
  | 0 => next
  | fuel + 1 => do
    let t ← next
    match t.kind with
    | .version major minor =>
      if hasVersion then fail {} "found duplicate %YAML directive" t.start
      if major != 1 || minor != 1 then fail {} "found incompatible YAML document" t.start
      discard
      directives true fuel
    | .handle handle expansion =>
      if ((← get).handles.lookup handle).isSome then fail {} "found duplicate %TAG directive" t.start
      modify fun s => { s with handles := s.handles ++ [(handle, expansion)] }
      discard
      directives hasVersion fuel
    | _ => return t

def defaultHandles : List (Text × Text) := [("!", "!"), ("!!", "tag:yaml.org,2002:")]

def rootNode (fuel : Nat) : Compose Node := do
  let t ← next
  match t.kind with
  | .version _ _ | .handle _ _ | .documentStart | .documentEnd | .streamEnd => return emptyScalar t.start
  | _ => node true false fuel t

/-- The first document of a stream; its root is missing if the stream is empty. -/
def firstDocument (fuel : Nat) : Compose (Option Node) := do
  let _ ← next
  let t ← advance
  if t.kind == .streamEnd then return none
  let isExplicit := match t.kind with
    | .version _ _ | .handle _ _ | .documentStart => true
    | _ => false
  let t ← directives false fuel
  modify fun s => { s with handles := s.handles ++ defaultHandles }
  let root ←
    if isExplicit then do
      if t.kind != .documentStart then fail {} "did not find expected <document start>" t.start
      discard
      rootNode fuel
    else node true false fuel t
  let _ ← next
  return some root

def Document.parse (s : Text) : Except Error Document :=
  let s : Text := if s.isEmpty then "\n" else s
  let scanner := Scanner.ofText s
  match ((firstDocument (8 * scanner.size)).run {}).run scanner with
  | .error e => .error e
  | .ok ((root, c), _) =>
    .ok { root, anchored := (List.range c.count).map fun i => (c.anchored.lookup i).getD (.scalar 0 "!!null" []) }

end ScriptBuild.Yaml
