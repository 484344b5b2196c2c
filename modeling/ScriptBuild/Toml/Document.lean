import ScriptBuild.Toml.Scalar

/-! TOML documents: lines that open a table, lines that open a table of an array, and lines that set a key. -/

namespace ScriptBuild.Toml

inductive Value where
  | text (s : Text)
  | bool (b : Bool)
  | word (w : Word)
  | array (items : List Value)
  /-- Paths and values in order. -/
  | table (members : List (List Text × Value))

def skipComment : Nat → Text → Except Error Text
  | 0, s => .ok s
  | _ + 1, [] => .ok []
  | fuel + 1, b :: s =>
    let rune := Rune.read b s
    if b == 10 then .ok (b :: s)
    else if b == 13 then
      if s.head? == some 10 then .ok s else fail "invalid character in comment"
    else if !isAllowed rune then fail "invalid character in comment"
    else skipComment fuel (s.drop (rune.bytes.length - 1))

def afterComment (s : Text) : Except Error Text :=
  if s.head? == some 0x23 then skipComment s.length (s.drop 1) else .ok s

def newline (s : Text) : Except Error Text :=
  match s with
  | 0x0A :: rest => .ok rest
  | 0x0D :: 0x0A :: rest => .ok rest
  | [0x0D] => fail "windows new line expected"
  | 0x0D :: _ => fail "windows new line should be \\r\\n"
  | b :: _ => fail ("expected newline but got " ++ shownByte b)
  | [] => .ok []

def skipFiller : Nat → Text → Except Error Text
  | 0, s => .ok s
  | fuel + 1, s => do
    let s ← afterComment (skipSpaces s)
    if s.head? == some 10 || s.head? == some 13 then skipFiller fuel (← newline s) else return s

def expect (b : UInt8) (s : Text) : Except Error Text :=
  match s with
  | [] => fail ("expected character " ++ [b] ++ " but the document ended here")
  | c :: rest => if c == b then .ok rest else fail ("expected character " ++ [b])

def isKeyByte (b : UInt8) : Bool := Text.isAlpha b || Text.isDigit b || b == '-' || b == '_'

def simpleKey (s : Text) : Except Error (Text × Text) :=
  match s with
  | [] => fail "expected key but found none"
  | b :: rest =>
    if b == '"' then basicString rest
    else if b == '\'' then literalString rest
    else if isKeyByte b then .ok (s.takeWhile isKeyByte, s.dropWhile isKeyByte)
    else fail ("invalid character at start of key: " ++ Text.ofRune b.toNat)

def key : Nat → Text → Except Error (List Text × Text)
  | 0, _ => fail "expected key but found none"
  | fuel + 1, s => do
    let (first, s) ← simpleKey s
    match skipSpaces s with
    | 0x2E :: rest =>
      let (more, s) ← key fuel (skipSpaces rest)
      return (first :: more, s)
    | s => return ([first], s)

def assignment (s : Text) : Except Error (List Text × Text) := do
  let (path, s) ← key (s.length + 1) s
  let s := skipSpaces s
  if s.isEmpty then fail "expected = after a key, but the document ends there"
  return (path, skipSpaces (← expect '=' s))

mutual

def value : Nat → Text → Except Error (Value × Text)
  | 0, _ | _ + 1, [] => fail "expected value, not eof"
  | fuel + 1, b :: s =>
    if b == '"' || b == '\'' then (quotedString (b :: s)).map fun (t, rest) => (.text t, rest)
    else if b == 't' then
      if Text.startsWith s "rue" then .ok (.bool true, s.drop 3) else fail "expected 'true'"
    else if b == 'f' then
      if Text.startsWith s "alse" then .ok (.bool false, s.drop 4) else fail "expected 'false'"
    else if b == '[' then (items fuel true s).map fun (xs, rest) => (.array xs, rest)
    else if b == '\x7b' then (inlineMembers fuel true s).map fun (ms, rest) => (.table ms, rest)
    else (scanWord (b :: s)).map fun (w, rest) => (.word w, rest)

def items : Nat → Bool → Text → Except Error (List Value × Text)
  | 0, _, _ => fail "array is incomplete"
  | fuel + 1, isFirst, s => do
    if s.isEmpty then fail "expected character ] but the document ended here"
    let s ← skipFiller s.length s
    let s ←
      match s with
      | [] => fail "array is incomplete"
      | b :: rest =>
        if b == ']' then pure s
        else if b == ',' then
          if isFirst then fail "array cannot start with comma" else skipFiller rest.length rest
        else if isFirst then pure s
        else fail "array elements must be separated by commas"
    match s with
    | 0x5D :: rest => return ([], rest)
    | s =>
      let (x, s) ← value fuel s
      let s ← skipFiller s.length s
      let (xs, s) ← items fuel false s
      return (x :: xs, s)

def inlineMembers : Nat → Bool → Text → Except Error (List (List Text × Value) × Text)
  | 0, _, _ => fail "inline table is incomplete"
  | fuel + 1, isFirst, s => do
    if s.isEmpty then fail "expected character \x7d but the document ended here"
    let s := skipSpaces s
    match s with
    | [] => fail "inline table is incomplete"
    | 0x7D :: rest => return ([], rest)
    | s =>
      let s ← if isFirst then pure s else (expect ',' s).map skipSpaces
      let (path, s) ← assignment s
      let (x, s) ← value fuel s
      let (rest, s) ← inlineMembers fuel false s
      return ((path, x) :: rest, s)

end

/-- Sets what is at a path; the last table of an array stands for the array. -/
def modifyAt (f : Option Setting → Setting) : List Text → Dictionary Setting → Dictionary Setting
  | [], members => members
  | [k], members => members.insert k (f (members.find? k))
  | k :: rest, members =>
    match members.find? k with
    | some (.table inner) => members.insert k (.table (modifyAt f rest inner))
    | some (.list items) =>
      match items.getLast? with
      | some (.table inner) => members.insert k (.list (items.dropLast ++ [.table (modifyAt f rest inner)]))
      | _ => members
    | _ => members.insert k (.table (modifyAt f rest []))

mutual

def Value.setting : Value → Except Error Setting
  | .text s => .ok (.text s)
  | .bool b => .ok (.bool b)
  | .word w => w.setting
  | .array xs => (Value.settings xs).map .list
  | .table ms => (Value.members [] ms).map .table

def Value.settings : List Value → Except Error (List Setting)
  | [] => .ok []
  | x :: rest => do return (← Value.setting x) :: (← Value.settings rest)

def Value.members (d : Dictionary Setting) : List (List Text × Value) → Except Error (Dictionary Setting)
  | [] => .ok d
  | (path, x) :: rest => do
    let x ← Value.setting x
    Value.members (modifyAt (fun _ => x) path d) rest

end

inductive EntrySort where
  | value
  | table
  | arrayTable
  deriving DecidableEq

def EntrySort.label : EntrySort → Text
  | .value => "value"
  | .table => "table"
  | .arrayTable => "array table"

structure Mark where
  sort : EntrySort
  /-- Defined by a line of its own, so that it cannot be extended from elsewhere. -/
  isExplicit : Bool
  /-- Made by a line that sets a key. -/
  isByKey : Bool

abbrev Marks := List (List Text × Mark)

namespace Marks

def find? (m : Marks) (path : List Text) : Option Mark := List.lookup path m

def insert (m : Marks) (path : List Text) (mark : Mark) : Marks :=
  (path, mark) :: m.filter fun (p, _) => p != path

def isBelow (path other : List Text) : Bool := path.length < other.length && path.isPrefixOf other

/-- Makes everything explicit that keys made below a path. -/
def close (m : Marks) (path : List Text) : Marks :=
  m.map fun (p, mark) =>
    if mark.isByKey && isBelow path p then (p, { mark with isExplicit := true, isByKey := false }) else (p, mark)

def clear (m : Marks) (path : List Text) : Marks := m.filter fun (p, _) => !isBelow path p

/-- Goes from `done` towards the table that the last of `path` stands in. -/
def enter (m : Marks) (done : List Text) : List Text → Except Error Marks
  | [] | [_] => .ok m
  | k :: rest =>
    let here := done ++ [k]
    match m.find? here with
    | none => enter (m.insert here ⟨.table, false, false⟩) here rest
    | some mark =>
      if mark.sort == .value then fail ("expected " ++ k ++ " to be a table, not a " ++ mark.sort.label)
      else enter m here rest

def openTable (m : Marks) (path : List Text) : Except Error Marks := do
  let m ← m.enter [] path
  let k := path.getLast?.getD []
  match m.find? path with
  | none => return m.insert path ⟨.table, true, false⟩
  | some mark =>
    if mark.sort != .table then fail ("key " ++ k ++ " should be a table, not a " ++ mark.sort.label)
    if mark.isExplicit then fail ("table " ++ k ++ " already exists")
    return m.insert path { mark with isExplicit := true }

def openItem (m : Marks) (path : List Text) : Except Error Marks := do
  let m ← m.enter [] path
  let k := path.getLast?.getD []
  match m.find? path with
  | none => return m.insert path ⟨.arrayTable, true, false⟩
  | some mark =>
    if mark.sort != .arrayTable then
      fail ("key " ++ mark.sort.label ++ " already exists as a " ++ k ++ ",  but should be an array table")
    return m.clear path

def setKey (m : Marks) (done : List Text) : List Text → Except Error Marks
  | [] => .ok m
  | k :: rest => do
    let here := done ++ [k]
    match m.find? here with
    | none => setKey (m.insert here ⟨if rest.isEmpty then .value else .table, false, true⟩) here rest
    | some mark =>
      if rest.isEmpty then fail ("key " ++ k ++ " is already defined")
      if mark.sort != .table then fail ("expected " ++ k ++ " to be a table, not a " ++ mark.sort.label)
      if mark.isExplicit then
        fail ("cannot redefine table " ++ k ++ " that has already been explicitly defined")
      setKey m here rest

end Marks

mutual

/-- Refuses inline tables that define a key twice. -/
def Value.check : Value → Except Error Unit
  | .array xs => Value.checkAll xs
  | .table ms => Value.checkMembers [] ms
  | .text _ | .bool _ | .word _ => .ok ()

def Value.checkAll : List Value → Except Error Unit
  | [] => .ok ()
  | x :: rest => do
    Value.check x
    Value.checkAll rest

def Value.checkMembers (m : Marks) : List (List Text × Value) → Except Error Unit
  | [] => .ok ()
  | (path, x) :: rest => do
    let m ← m.setKey [] path
    Value.check x
    Value.checkMembers m rest

end

structure State where
  root : Dictionary Setting := []
  path : List Text := []
  marks : Marks := []

namespace State

def openTable (st : State) (path : List Text) : Except Error State := do
  let marks ← (st.marks.close st.path).openTable path
  return { root := modifyAt (fun old => old.getD (.table [])) path st.root, path, marks }

def openItem (st : State) (path : List Text) : Except Error State := do
  let append (old : Option Setting) : Setting :=
    match old with
    | some (.list items) => .list (items ++ [.table []])
    | _ => .list [.table []]
  let marks ← (st.marks.close st.path).openItem path
  return { root := modifyAt append path st.root, path, marks }

def setKey (st : State) (path : List Text) (x : Value) : Except Error State := do
  let marks ← st.marks.setKey st.path path
  x.check
  let x ← x.setting
  return { st with root := modifyAt (fun _ => x) (st.path ++ path) st.root, marks }

end State

inductive Expression where
  | table (path : List Text)
  | item (path : List Text)
  | key (path : List Text) (x : Value)

def expression (s : Text) : Except Error (Expression × Text) := do
  if Text.startsWith s "[[" then
    let (path, s) ← key s.length (skipSpaces (s.drop 2))
    let s ← expect ']' (skipSpaces s)
    return (.item path, ← expect ']' s)
  else if s.head? == some 0x5B then
    let (path, s) ← key s.length (skipSpaces (s.drop 1))
    return (.table path, ← expect ']' (skipSpaces s))
  else
    let (path, s) ← assignment s
    let (x, s) ← value (s.length + 1) s
    return (.key path x, s)

def State.apply (st : State) : Expression → Except Error State
  | .table path => st.openTable path
  | .item path => st.openItem path
  | .key path x => st.setKey path x

/-- Reads expressions, one on a line. A line is read to its end before its expression counts. -/
def lines : Nat → State → Text → Except Error State
  | 0, st, _ => .ok st
  | fuel + 1, st, s => do
    let s := skipSpaces s
    let isEmptyLine := s.isEmpty || s.head? == some 0x23 || s.head? == some 10 || s.head? == some 13
    if isEmptyLine then
      let s ← afterComment s
      if s.isEmpty then return st else lines fuel st (← newline s)
    else
      let (e, s) ← expression s
      let s ← afterComment (skipSpaces s)
      let st ← st.apply e
      if s.isEmpty then return st else lines fuel st (← newline s)

def parse (s : Text) : Except Error (Dictionary Setting) := (lines (s.length + 1) {} s).map (·.root)

end ScriptBuild.Toml
