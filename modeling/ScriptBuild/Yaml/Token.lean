import ScriptBuild.Yaml.Problem

/-! Tokens of a document, and the state in which they are read. -/

namespace ScriptBuild.Yaml

/-- A number of decoded characters, or why they could not be decoded. -/
abbrev Portion := Except Text (List Nat)

/-- The number of bytes of a character with first byte `b`; 0 if there is no such character. -/
def octetWidth (b : UInt8) : Nat :=
  if b < 0x80 then 1
  else if 0xC0 ≤ b && b < 0xE0 then 2
  else if 0xE0 ≤ b && b < 0xF0 then 3
  else if 0xF0 ≤ b && b < 0xF8 then 4
  else 0

def isAllowed (c : Nat) : Bool :=
  c == 0x09 || c == 0x0A || c == 0x0D || (0x20 ≤ c && c ≤ 0x7E) || c == 0x85 || (0xA0 ≤ c && c ≤ 0xD7FF) ||
    (0xE000 ≤ c && c ≤ 0xFFFD) || (0x10000 ≤ c && c ≤ 0x10FFFF)

def checkAllowed (c : Nat) : Except Text Nat :=
  if isAllowed c then .ok c else .error "control characters are not allowed"

/-- The character with the given bytes, the first of which says how many they are. -/
def decodeOctets (first : UInt8) (tail : Text) : Except Text Nat :=
  let width := tail.length + 1
  let lead := if width == 1 then first.toNat % 128 else first.toNat % (1 <<< (7 - width))
  if tail.all Rune.isTail then
    let value := tail.foldl (fun v b => v * 64 + Rune.tailBits b) lead
    if (width == 2 && value < 0x80) || (width == 3 && value < 0x800) || (width == 4 && value < 0x10000) then
      .error "invalid length of a UTF-8 sequence"
    else if (0xD800 ≤ value && value ≤ 0xDFFF) || value > 0x10FFFF then .error "invalid Unicode character"
    else checkAllowed value
  else .error "invalid trailing UTF-8 octet"

/-- Decodes UTF-8 up to a character that is cut off at the end, which is given back. -/
def decodeUtf8 : Nat → Text → List Nat → Except Text (List Nat × Text)
  | _, [], done => .ok (done.reverse, [])
  | 0, rest, done => .ok (done.reverse, rest)
  | fuel + 1, b :: rest, done =>
    let width := octetWidth b
    if width == 0 then .error "invalid leading UTF-8 octet"
    else if rest.length + 1 < width then .ok (done.reverse, b :: rest)
    else do decodeUtf8 fuel (rest.drop (width - 1)) ((← decodeOctets b (rest.take (width - 1))) :: done)

def unit16 (isBig : Bool) (a b : UInt8) : Nat :=
  if isBig then a.toNat * 256 + b.toNat else b.toNat * 256 + a.toNat

def decodeUtf16 (isBig : Bool) : Nat → Text → List Nat → Except Text (List Nat × Text)
  | 0, rest, done => .ok (done.reverse, rest)
  | fuel + 1, a :: b :: rest, done =>
    let v := unit16 isBig a b
    if 0xDC00 ≤ v && v ≤ 0xDFFF then .error "unexpected low surrogate area"
    else if 0xD800 ≤ v && v ≤ 0xDBFF then
      match rest with
      | c :: d :: rest =>
        let w := unit16 isBig c d
        if 0xDC00 ≤ w && w ≤ 0xDFFF then
          do decodeUtf16 isBig fuel rest ((← checkAllowed (0x10000 + (v % 1024) * 1024 + w % 1024)) :: done)
        else .error "expected low surrogate area"
      | _ => .ok (done.reverse, a :: b :: rest)
    else do decodeUtf16 isBig fuel rest ((← checkAllowed v) :: done)
  | _, rest, done => .ok (done.reverse, rest)

def portionSize : Nat := 512

/-- The portions of a text; `room` is the number of bytes for the first one. -/
def portions (decode : Text → Except Text (List Nat × Text)) (cut : Text → Text) : Nat → Nat → Text → List Portion
  | 0, _, _ => []
  | _ + 1, _, [] => []
  | fuel + 1, room, s =>
    match decode (s.take room) with
    | .error p => [.error p]
    | .ok (chars, rest) =>
      if rest.length == s.length then [.error (cut rest)]
      else .ok chars :: portions decode cut fuel portionSize (rest ++ s.drop room)

/-- The portions of a document. A byte order mark at the beginning says how it is encoded. -/
def portionsOf (s : Text) : List Portion :=
  let fuel := s.length + 1
  let utf16 (isBig : Bool) : Text → List Portion :=
    let cut (t : Text) : Text :=
      if t.length < 2 then "incomplete UTF-16 character" else "incomplete UTF-16 surrogate pair"
    portions (decodeUtf16 isBig fuel · []) cut fuel (portionSize - 2)
  let utf8 : Nat → Text → List Portion :=
    portions (decodeUtf8 fuel · []) (fun _ => "incomplete UTF-8 octet sequence") fuel
  match s with
  | 0xFF :: 0xFE :: rest => utf16 false rest
  | 0xFE :: 0xFF :: rest => utf16 true rest
  | 0xEF :: 0xBB :: 0xBF :: rest => utf8 (portionSize - 3) rest
  | _ => utf8 portionSize s

/-! Classes of characters. The end of the document counts as character 0. -/

def isEnd (c : Nat) : Bool := c == 0

def isSpace (c : Nat) : Bool := c == 32

def isTab (c : Nat) : Bool := c == 9

def isBlank (c : Nat) : Bool := isSpace c || isTab c

def isBreak (c : Nat) : Bool := c == 10 || c == 13 || c == 0x85 || c == 0x2028 || c == 0x2029

def isBreakOrEnd (c : Nat) : Bool := isBreak c || isEnd c

def isGap (c : Nat) : Bool := isBlank c || isBreakOrEnd c

def isDigitChar (c : Nat) : Bool := 48 ≤ c && c ≤ 57

def isNameChar (c : Nat) : Bool :=
  isDigitChar c || (65 ≤ c && c ≤ 90) || (97 ≤ c && c ≤ 122) || c == 95 || c == 45

def isOneOf (s : String) (c : Nat) : Bool := s.toList.any fun x => x.toNat == c

def hexValue? (c : Nat) : Option Nat :=
  if isDigitChar c then some (c - 48)
  else if 65 ≤ c && c ≤ 70 then some (c - 55)
  else if 97 ≤ c && c ≤ 102 then some (c - 87)
  else none

structure Mark where
  index : Nat := 0
  line : Nat := 0
  column : Nat := 0

inductive TokenKind where
  | streamStart
  | streamEnd
  | version (major minor : Nat)
  | handle (handle expansion : Text)
  | documentStart
  | documentEnd
  | blockSequenceStart
  | blockMappingStart
  | blockEnd
  | flowSequenceStart
  | flowSequenceEnd
  | flowMappingStart
  | flowMappingEnd
  | blockEntry
  | flowEntry
  | key
  | value
  | alias (name : Text)
  | anchor (name : Text)
  | tag (handle suffix : Text)
  | scalar (value : Text) (isPlain : Bool)
  deriving DecidableEq

structure Token where
  kind : TokenKind
  start : Mark
  stop : Mark

/-- A place where a key without a question mark may have begun. -/
structure KeyStart where
  isPossible : Bool := false
  isRequired : Bool := false
  /-- The number of the token that begins the key, counted from the beginning of the document. -/
  token : Nat := 0
  mark : Mark := {}

structure Scanner where
  rest : List Nat
  portions : List Portion
  /-- The character at which the decoded part began when it was last extended. -/
  head : Nat := 0
  /-- No loop over the characters takes more steps. -/
  size : Nat
  mark : Mark := {}
  /-- Whether only blanks were read since the last line break. -/
  isAfterBreak : Bool := false
  isStarted : Bool := false
  indent : Int := -1
  indents : List Int := []
  flowLevel : Nat := 0
  /-- For every flow level, the outermost first. -/
  keyStarts : Array KeyStart := #[]
  /-- The depth at which the key that begins with a token was noted. -/
  keyDepths : List (Nat × Nat) := []
  isKeyAllowed : Bool := false
  queue : List Token := []
  taken : Nat := 0

abbrev Scan (α : Type) := StateT Scanner (Except Error) α

/-- A problem met while scanning. The line is that of the context, or else where it was met. -/
def failScan {α : Type} (context : Mark) (p : Text) : Scan α := do
  let here := (← get).mark
  let line := if context.line != 0 then context.line + 1 else if here.line != 0 then here.line + 1 else 0
  throw (.text line p)

def failParse {α : Type} (context : Mark) (p : Text) (here : Mark) : Scan α :=
  throw (.text (if context.line != 0 then context.line else here.line) p)

def load (n : Nat) : List Nat → List Portion → Except Error (List Nat × List Portion)
  | rest, [] => .ok (rest, [])
  | rest, p :: ps =>
    if (rest.drop (n - 1)).isEmpty then
      match p with
      | .error problem => .error (.text 0 problem)
      | .ok chars => load n (rest ++ chars) ps
    else .ok (rest, p :: ps)

def need (n : Nat) : Scan Unit := do
  let s ← get
  if (s.rest.drop (n - 1)).isEmpty then
    let (rest, portions) ← (load n s.rest s.portions : Except Error _)
    set { s with rest, portions, head := rest.headD 0 }

def peekAt (k : Nat) : Scan Nat := do
  need (k + 1)
  return ((← get).rest.getD k 0)

def peek : Scan Nat := peekAt 0

def skip : Scan Unit := do
  let c ← peek
  modify fun s =>
    { s with
      rest := s.rest.tail
      mark := { s.mark with index := s.mark.index + 1, column := s.mark.column + 1 }
      isAfterBreak := isBlank c && s.isAfterBreak }

def read : Scan Text := do
  let c ← peek
  skip
  return Text.ofRune c

/-- Reads a line break, if there is one. Breaks other than line and paragraph separators are read
as newlines. -/
def readLine : Scan Text := do
  let c ← peek
  let width := if c == 13 && (← peekAt 1) == 10 then 2 else 1
  if isBreak c then
    modify fun s =>
      { s with
        rest := s.rest.drop width
        mark := { index := s.mark.index + width, line := s.mark.line + 1, column := 0 }
        isAfterBreak := true }
    return if c == 0x2028 || c == 0x2029 then Text.ofRune c else "\n"
  else return []

def skipLine : Scan Unit := do
  let _ ← readLine

def skipWhile (p : Nat → Bool) : Nat → Scan Unit
  | 0 => pure ()
  | fuel + 1 => do
    if p (← peek) then
      skip
      skipWhile p fuel

def readWhile (p : Nat → Bool) : Nat → Text → Scan Text
  | 0, s => pure s
  | fuel + 1, s => do
    if p (← peek) then
      let c ← read
      readWhile p fuel (s ++ c)
    else return s

def skipBlanks : Scan Unit := do skipWhile isBlank (← get).size

def skipToBreak : Scan Unit := do skipWhile (fun c => !isBreakOrEnd c) (← get).size

def readName : Scan Text := do readWhile isNameChar (← get).size []

/-- Whether three equal marks and a gap stand at the beginning of a line. -/
def isDocumentMark (c : Nat) : Scan Bool := do
  need 4
  if (← get).mark.column != 0 then return false
  return (← peek) == c && (← peekAt 1) == c && (← peekAt 2) == c && isGap (← peekAt 3)

/-- Reads the rest of a line, where only a comment may stand. -/
def endLine (start : Mark) : Scan Unit := do
  skipBlanks
  if (← peek) == 0x23 then skipToBreak
  if !isBreakOrEnd (← peek) then failScan start "did not find expected comment or line break"
  skipLine

def append (kind : TokenKind) (start stop : Mark) : Scan Unit :=
  modify fun s => { s with queue := s.queue ++ [⟨kind, start, stop⟩] }

end ScriptBuild.Yaml
