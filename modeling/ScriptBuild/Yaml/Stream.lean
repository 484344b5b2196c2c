import ScriptBuild.Yaml.Scalar

/-! The stream of tokens. -/

namespace ScriptBuild.Yaml

def readVersionNumber (start : Mark) : Nat → Nat → Nat → Scan Nat
  | 0, _, value => pure value
  | fuel + 1, length, value => do
    let c ← peek
    if isDigitChar c then
      if length == 2 then failScan start "found extremely long version number"
      skip
      readVersionNumber start fuel (length + 1) (value * 10 + (c - 48))
    else if length == 0 then failScan start "did not find expected version number"
    else return value

def readEscapedOctet (start : Mark) : Scan Nat := do
  match ← peek, hexValue? (← peekAt 1), hexValue? (← peekAt 2) with
  | 0x25, some a, some b =>
    skip
    skip
    skip
    return a * 16 + b
  | _, _, _ => failScan start "did not find URI escaped octet"

def readTrailingOctets (start : Mark) : Nat → Text → Scan Text
  | 0, s => pure s
  | n + 1, s => do
    let octet ← readEscapedOctet start
    if octet / 64 != 2 then failScan start "found an incorrect trailing UTF-8 octet"
    readTrailingOctets start n (s ++ [octet.toUInt8])

def readEscapedChar (start : Mark) : Scan Text := do
  let octet ← readEscapedOctet start
  let width := octetWidth octet.toUInt8
  if width == 0 then failScan start "found an incorrect leading UTF-8 octet"
  readTrailingOctets start (width - 1) [octet.toUInt8]

def isUriChar (c : Nat) : Bool := isNameChar c || isOneOf ";/?:@&=+$,.!~*'()[]%" c

def readUriChars (start : Mark) : Nat → Text → Scan Text
  | 0, s => pure s
  | fuel + 1, s => do
    let c ← peek
    if isUriChar c then
      let part ← if c == 0x25 then readEscapedChar start else read
      readUriChars start fuel (s ++ part)
    else return s

/-- The rest of a tag of which `head` was read already; its exclamation mark is left out. -/
def readTagUri (start : Mark) (head : Text) : Scan Text := do
  let uri ← readUriChars start (← get).size (head.drop 1)
  if head.isEmpty && uri.isEmpty then failScan start "did not find expected tag URI"
  return uri

def readHandle (start : Mark) (isDirective : Bool) : Scan Text := do
  if (← peek) != 0x21 then failScan start "did not find expected '!'"
  let mark ← read
  let name ← readName
  if (← peek) == 0x21 then
    return mark ++ name ++ (← read)
  else
    if isDirective && !name.isEmpty then failScan start "did not find expected '!'"
    return mark ++ name

def expectGap (start : Mark) : Scan Unit := do
  if !isGap (← peek) then failScan start "did not find expected whitespace or line break"

def readVersion (start : Mark) : Scan TokenKind := do
  skipBlanks
  let major ← readVersionNumber start (← get).size 0 0
  if (← peek) != 0x2E then failScan start "did not find expected digit or '.' character"
  skip
  let minor ← readVersionNumber start (← get).size 0 0
  return .version major minor

def readHandleDirective (start : Mark) : Scan TokenKind := do
  skipBlanks
  let handle ← readHandle start true
  if !isBlank (← peek) then failScan start "did not find expected whitespace"
  skipBlanks
  let expansion ← readTagUri start []
  expectGap start
  return .handle handle expansion

def readDirective : Scan Unit := do
  let start := (← get).mark
  skip
  let name ← readName
  if name.isEmpty then failScan start "could not find expected directive name"
  if !isGap (← peek) then failScan start "found unexpected non-alphabetical character"
  let kind ←
    if name == "YAML" then readVersion start
    else if name == "TAG" then readHandleDirective start
    else failScan start "found unknown directive name"
  let stop := (← get).mark
  endLine start
  append kind start stop

def readAnchor (isAlias : Bool) : Scan Unit := do
  let start := (← get).mark
  skip
  let name ← readName
  let stop := (← get).mark
  let c ← peek
  if name.isEmpty || !(isGap c || isOneOf "?:,]\x7d%@`" c) then
    failScan start "did not find expected alphabetic or numeric character"
  append (if isAlias then .alias name else .anchor name) start stop

def readTag : Scan Unit := do
  let start := (← get).mark
  let kind ←
    if (← peekAt 1) == 0x3C then
      skip
      skip
      let suffix ← readTagUri start []
      if (← peek) != 0x3E then failScan start "did not find the expected '>'"
      skip
      pure (TokenKind.tag [] suffix)
    else
      let handle ← readHandle start false
      if handle.length > 1 && Text.endsWith handle "!" then
        pure (TokenKind.tag handle (← readTagUri start []))
      else
        let suffix ← readTagUri start handle
        pure (if suffix.isEmpty then TokenKind.tag [] handle else TokenKind.tag "!" suffix)
  expectGap start
  append kind start (← get).mark

def Scanner.ofText (s : Text) : Scanner :=
  { rest := [], portions := portionsOf s, size := s.length + 8 }

def insert (place : Int) (t : Token) : Scan Unit :=
  modify fun s =>
    { s with
      queue := if place < 0 then s.queue ++ [t] else s.queue.take place.toNat ++ t :: s.queue.drop place.toNat }

def keyStartAt (depth : Nat) : Scan KeyStart := do return (← get).keyStarts.getD depth {}

def setKeyStart (depth : Nat) (k : KeyStart) : Scan Unit :=
  modify fun s => { s with keyStarts := s.keyStarts.setIfInBounds depth k }

def topDepth : Scan Nat := do return (← get).keyStarts.size - 1

def requireColon (k : KeyStart) : Scan Unit := do
  if k.isRequired then failScan k.mark "could not find expected ':'"

/-- Whether a key may still have begun at a place: on the same line, and not too far back. -/
def isOpen (depth : Nat) : Scan Bool := do
  let k ← keyStartAt depth
  let here := (← get).mark
  if !k.isPossible then return false
  if k.mark.line < here.line || k.mark.index + 1024 < here.index then
    requireColon k
    setKeyStart depth { k with isPossible := false }
    return false
  return true

def topKeyStart : Scan KeyStart := do keyStartAt (← topDepth)

def forgetDepth (token : Nat) : Scan Unit :=
  modify fun s => { s with keyDepths := s.keyDepths.filter fun (t, _) => t != token }

def closeKeyStart (k : KeyStart) : Scan Unit := do
  setKeyStart (← topDepth) { k with isPossible := false }
  forgetDepth k.token

def removeKeyStart : Scan Unit := do
  let k ← topKeyStart
  if k.isPossible then
    requireColon k
    closeKeyStart k

/-- Notes that a key may begin here. It has to be one if it stands where the keys of a block are. -/
def saveKeyStart : Scan Unit := do
  let s ← get
  if s.isKeyAllowed then
    removeKeyStart
    let token := s.taken + s.queue.length
    let depth ← topDepth
    setKeyStart depth
      { isPossible := true
        isRequired := s.flowLevel == 0 && s.indent == s.mark.column
        token
        mark := s.mark }
    forgetDepth token
    modify fun s => { s with keyDepths := (token, depth) :: s.keyDepths }

def allowKey (isAllowed : Bool) : Scan Unit := modify fun s => { s with isKeyAllowed := isAllowed }

def maxDepth : Nat := 10000

def rollIndent (column : Nat) (place : Int) (kind : TokenKind) (mark : Mark) : Scan Unit := do
  let s ← get
  if s.flowLevel == 0 && s.indent < column then
    set { s with indents := s.indent :: s.indents, indent := column }
    if s.indents.length ≥ maxDepth then failScan (← topKeyStart).mark "exceeded max depth of 10000"
    insert place ⟨kind, mark, mark⟩

def unrollIndent (column : Int) (mark : Mark) : Scan Unit := do
  let s ← get
  if s.flowLevel == 0 then
    let deeper := (s.indent :: s.indents).takeWhile fun i => i > column
    let kept := (s.indent :: s.indents).drop deeper.length
    let ends : List Token := deeper.map fun _ => ⟨.blockEnd, mark, mark⟩
    set { s with indent := kept.headD (-1), indents := kept.tail, queue := s.queue ++ ends }

def take (n : Nat) (kind : TokenKind) : Scan Unit := do
  let start := (← get).mark
  for _ in List.range n do skip
  append kind start (← get).mark

def fetchStreamStart : Scan Unit := do
  modify fun s => { s with isStarted := true, isKeyAllowed := true, keyStarts := #[{}] }
  take 0 .streamStart

def closeBlocks : Scan Unit := do
  unrollIndent (-1) (← get).mark
  removeKeyStart
  allowKey false

def fetchStreamEnd : Scan Unit := do
  modify fun s =>
    if s.mark.column == 0 then s else { s with mark := { s.mark with column := 0, line := s.mark.line + 1 } }
  closeBlocks
  take 0 .streamEnd

def fetchDirective : Scan Unit := do
  closeBlocks
  readDirective

def fetchDocumentMark (kind : TokenKind) : Scan Unit := do
  closeBlocks
  take 3 kind

def fetchFlowStart (kind : TokenKind) : Scan Unit := do
  saveKeyStart
  modify fun s =>
    { s with
      keyStarts := s.keyStarts.push { token := s.taken + s.queue.length, mark := s.mark }
      flowLevel := s.flowLevel + 1 }
  if (← get).flowLevel > maxDepth then failScan (← get).mark "exceeded max depth of 10000"
  allowKey true
  take 1 kind

def fetchFlowEnd (kind : TokenKind) : Scan Unit := do
  removeKeyStart
  if (← get).flowLevel > 0 then
    forgetDepth (← topKeyStart).token
    modify fun s => { s with flowLevel := s.flowLevel - 1, keyStarts := s.keyStarts.pop }
  allowKey false
  take 1 kind

def fetchFlowEntry : Scan Unit := do
  removeKeyStart
  allowKey true
  take 1 .flowEntry

/-- Begins a block collection where none is open, if one may stand here. -/
def openBlock (kind : TokenKind) (p : Text) : Scan Unit := do
  let s ← get
  if s.flowLevel == 0 then
    if !s.isKeyAllowed then failScan s.mark p
    rollIndent s.mark.column (-1) kind s.mark

def fetchBlockEntry : Scan Unit := do
  openBlock .blockSequenceStart "block sequence entries are not allowed in this context"
  removeKeyStart
  allowKey true
  take 1 .blockEntry

def fetchKey : Scan Unit := do
  openBlock .blockMappingStart "mapping keys are not allowed in this context"
  removeKeyStart
  allowKey ((← get).flowLevel == 0)
  take 1 .key

def fetchValue : Scan Unit := do
  let k ← topKeyStart
  let s ← get
  if ← isOpen (← topDepth) then
    let place : Int := (k.token : Int) - s.taken
    insert place ⟨.key, k.mark, k.mark⟩
    rollIndent k.mark.column place .blockMappingStart k.mark
    closeKeyStart k
    allowKey false
  else
    openBlock .blockMappingStart "mapping values are not allowed in this context"
    allowKey (s.flowLevel == 0)
  take 1 .value

/-- A token that may be a key and that no key follows directly. -/
def fetchPossibleKey (read : Scan Unit) : Scan Unit := do
  saveKeyStart
  allowKey false
  read

def fetchBlock (isLiteral : Bool) : Scan Unit := do
  removeKeyStart
  allowKey true
  readBlock isLiteral

/-- How many blanks, or blanks and line breaks, stand before a comment. -/
def blanksBeforeComment? (crossesLines : Bool) : Nat → List Nat → Option Nat
  | _, [] => none
  | 0, _ => none
  | fuel + 1, c :: cs =>
    if c == 0x23 then some 0
    else if isBlank c || (crossesLines && (c == 10 || c == 13)) then
      (blanksBeforeComment? crossesLines fuel cs).map (· + 1)
    else none

/-- How far ahead a comment is looked for. -/
def commentReach : Nat := 512

/-- The index at which a comment begins, if only blanks come before it. -/
def commentAhead? (crossesLines : Bool) : Scan (Option Nat) := do
  let s ← get
  let rest := match load commentReach s.rest s.portions with
    | .ok (rest, _) => rest
    | .error _ => s.rest
  return (blanksBeforeComment? crossesLines commentReach rest).map (s.mark.index + ·)

def skipTo (index : Nat) : Nat → Scan Unit
  | 0 => pure ()
  | fuel + 1 => do
    if (← get).mark.index < index then
      if isBreak (← peek) then skipLine else skip
      skipTo index fuel

def skipComments : Nat → Scan Unit
  | 0 => pure ()
  | fuel + 1 => do
    skipToBreak
    if let some index ← commentAhead? true then
      skipTo index commentReach
      skipComments fuel

def skipLineComment : Scan Unit := do
  if !(← get).isAfterBreak then
    if let some index ← commentAhead? false then
      skipTo index commentReach
      skipToBreak

def byteOrderMark : Nat := 0xFEFF

/-- Skips what stands between tokens, but not tabs where a key of a block may begin. While the decoded part begins with
a byte order mark, a character is skipped at the beginning of a line. -/
def skipToToken : Nat → Scan Unit
  | 0 => pure ()
  | fuel + 1 => do
    need 1
    if (← get).mark.column == 0 && (← get).head == byteOrderMark then skip
    let s ← get
    let allowsTabs := s.flowLevel > 0 || !s.isKeyAllowed
    skipWhile (fun c => isSpace c || (allowsTabs && isTab c)) s.size
    if (← peek) == 0x23 then skipComments s.size
    if isBreak (← peek) then
      skipLine
      if s.flowLevel == 0 then allowKey true
      skipToToken fuel

def beginsPlain (c : Nat) : Scan Bool := do
  if c == 0x2D then return !isBlank (← peekAt 1)
  if (c == 0x3F || c == 0x3A) && (← get).flowLevel == 0 then return !isGap (← peekAt 1)
  return !isGap c && !isOneOf "-?:,[]\x7b\x7d#&*!|>'\"%@`" c

def fetchContent (c : Nat) : Scan Unit := do
  let s ← get
  let isFlow := s.flowLevel > 0
  let isAlone := isGap (← peekAt 1)
  match Char.ofNat c with
  | '[' => fetchFlowStart .flowSequenceStart
  | '\x7b' => fetchFlowStart .flowMappingStart
  | ']' => fetchFlowEnd .flowSequenceEnd
  | '\x7d' => fetchFlowEnd .flowMappingEnd
  | ',' => fetchFlowEntry
  | '*' => fetchPossibleKey (readAnchor true)
  | '&' => fetchPossibleKey (readAnchor false)
  | '!' => fetchPossibleKey readTag
  | '\'' => fetchPossibleKey (readQuoted 0x27)
  | '"' => fetchPossibleKey (readQuoted 0x22)
  | _ =>
    if c == 0x2D && isAlone then fetchBlockEntry
    else if c == 0x3F && (isFlow || isAlone) then fetchKey
    else if c == 0x3A && (isFlow || isAlone) then fetchValue
    else if c == 0x7C && !isFlow then fetchBlock true
    else if c == 0x3E && !isFlow then fetchBlock false
    else if ← beginsPlain c then fetchPossibleKey readPlain
    else failScan s.mark "found character that cannot start any token"

def fetchNext : Scan Unit := do
  need 1
  let before ← get
  if !before.isStarted then fetchStreamStart
  else
    skipToToken before.size
    unrollIndent (← get).mark.column before.mark
    need 4
    let c ← peek
    if isEnd c then fetchStreamEnd
    else if c == 0x25 && (← get).mark.column == 0 then fetchDirective
    else if ← isDocumentMark 0x2D then fetchDocumentMark .documentStart
    else if ← isDocumentMark 0x2E then fetchDocumentMark .documentEnd
    else
      fetchContent c
      if ((← get).queue.getLast?.map (·.kind)) != some .blockEntry then skipLineComment

/-- Fetches tokens until it is known what the first one of the queue is. Two more are always
looked at. -/
def fetchMore : Nat → Scan Unit
  | 0 => pure ()
  | fuel + 1 => do
    let s ← get
    let isDecided ←
      if s.queue.length > 2 then
        match s.keyDepths.lookup s.taken with
        | none => pure true
        | some depth => do pure (!(← isOpen depth))
      else pure false
    if !isDecided then
      fetchNext
      fetchMore fuel

def nextToken : Scan Token := do
  fetchMore (2 * (← get).size + 8)
  return (← get).queue.headD ⟨.streamEnd, {}, {}⟩

def dropToken : Scan Unit := modify fun s => { s with queue := s.queue.tail, taken := s.taken + 1 }

end ScriptBuild.Yaml
