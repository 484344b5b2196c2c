import ScriptBuild.Yaml.Token

/-! Scalars in their three forms: plain, in quotes, and as indented blocks. -/

namespace ScriptBuild.Yaml

/-- What a line break and the empty lines after it become: a space, or the empty lines. -/
def foldBreaks (first more : Text) : Text :=
  if first.head? == some '\n' then (if more.isEmpty then " " else more) else first ++ more

structure Gap where
  blanks : Text := []
  hasBreak : Bool := false
  first : Text := []
  more : Text := []

def Gap.text (g : Gap) : Text := if g.hasBreak then foldBreaks g.first g.more else g.blanks

/-- Reads on in a gap. `onTab` is told of tabs after a line break. -/
def readGap (onTab : Scan Unit) : Nat → Gap → Scan Gap
  | 0, g => pure g
  | fuel + 1, g => do
    let c ← peek
    if isBlank c then
      if g.hasBreak then
        if isTab c then onTab
        skip
        readGap onTab fuel g
      else
        let b ← read
        readGap onTab fuel { g with blanks := g.blanks ++ b }
    else if isBreak c then
      let b ← readLine
      if g.hasBreak then readGap onTab fuel { g with more := g.more ++ b }
      else readGap onTab fuel { g with blanks := [], hasBreak := true, first := b }
    else return g

/-! Plain scalars -/

def endsPlain : Scan Bool := do
  let c ← peek
  if isGap c then return true
  if c == 0x3A then return isGap (← peekAt 1)
  return (← get).flowLevel > 0 && isOneOf ",?[]\x7b\x7d" c

def readWord : Nat → Text → Scan Text
  | 0, s => pure s
  | fuel + 1, s => do
    if ← endsPlain then return s
    let c ← read
    readWord fuel (s ++ c)

/-- Words and the gaps between them; the last gap is not part of the scalar. The result also says
where the last word ended, and whether a line break follows it. -/
def readPlainWords (start : Mark) (indent : Int) : Nat → Text → Gap → Mark → Scan (Text × Mark × Bool)
  | 0, s, gap, stop => pure (s, stop, gap.hasBreak)
  | fuel + 1, s, gap, stop => do
    if (← isDocumentMark 0x2D) || (← isDocumentMark 0x2E) || (← peek) == 0x23 then
      return (s, stop, gap.hasBreak)
    let word ← readWord fuel []
    let here := (← get).mark
    let (s, gap, stop) := if word.isEmpty then (s, gap, stop) else (s ++ gap.text ++ word, {}, here)
    let c ← peek
    if !(isBlank c || isBreak c) then return (s, stop, gap.hasBreak)
    let onTab : Scan Unit := do
      if ((← get).mark.column : Int) < indent then failScan start "found a tab character that violates indentation"
    let gap ← readGap onTab fuel gap
    let state ← get
    if state.flowLevel == 0 && (state.mark.column : Int) < indent then return (s, stop, gap.hasBreak)
    readPlainWords start indent fuel s gap stop

def readPlain : Scan Unit := do
  let state ← get
  let start := state.mark
  let (s, stop, hasBreak) ← readPlainWords start (state.indent + 1) state.size [] {} start
  if hasBreak then modify fun s => { s with isKeyAllowed := true }
  append (.scalar s true) start stop

/-! Scalars in quotes -/

def simpleEscapes : List (Nat × Nat) :=
  [(0x30, 0), (0x61, 7), (0x62, 8), (0x74, 9), (9, 9), (0x6E, 10), (0x76, 11), (0x66, 12), (0x72, 13),
    (0x65, 27), (0x20, 32), (0x22, 34), (0x27, 39), (0x5C, 92), (0x4E, 0x85), (0x5F, 0xA0),
    (0x4C, 0x2028), (0x50, 0x2029)]

def escapeDigits (c : Nat) : Nat :=
  if c == 0x78 then 2 else if c == 0x75 then 4 else if c == 0x55 then 8 else 0

def readHex (start : Mark) : Nat → Nat → Scan Nat
  | 0, value => pure value
  | n + 1, value => do
    match hexValue? (← peek) with
    | none => failScan start "did not find expected hexdecimal number"
    | some d =>
      skip
      readHex start n (value * 16 + d)

def readEscape (start : Mark) : Scan Text := do
  let c ← peekAt 1
  match simpleEscapes.lookup c with
  | some code =>
    skip
    skip
    return Text.ofRune code
  | none =>
    let digits := escapeDigits c
    if digits == 0 then failScan start "found unknown escape character"
    skip
    skip
    let value ← readHex start digits 0
    if (0xD800 ≤ value && value ≤ 0xDFFF) || value > 0x10FFFF then
      failScan start "found invalid Unicode character escape code"
    return Text.ofRune value

/-- Reads up to a gap or the closing quote. The result also says whether an escaped line break was met. -/
def readQuotedWord (start : Mark) (quote : Nat) : Nat → Text → Scan (Text × Bool)
  | 0, s => pure (s, false)
  | fuel + 1, s => do
    let c ← peek
    if isGap c then return (s, false)
    if c == quote then
      if quote == 0x27 && (← peekAt 1) == 0x27 then
        skip
        let q ← read
        readQuotedWord start quote fuel (s ++ q)
      else return (s, false)
    else if quote == 0x22 && c == 0x5C then
      if isBreak (← peekAt 1) then
        skip
        skipLine
        return (s, true)
      let e ← readEscape start
      readQuotedWord start quote fuel (s ++ e)
    else
      let x ← read
      readQuotedWord start quote fuel (s ++ x)

def readQuotedParts (start : Mark) (quote : Nat) : Nat → Text → Scan Text
  | 0, s => pure s
  | fuel + 1, s => do
    if (← isDocumentMark 0x2D) || (← isDocumentMark 0x2E) then failScan start "found unexpected document indicator"
    if isEnd (← peek) then failScan start "found unexpected end of stream"
    let (s, escaped) ← readQuotedWord start quote fuel s
    if (← peek) == quote then return s
    let gap ← readGap (pure ()) fuel { hasBreak := escaped }
    readQuotedParts start quote fuel (s ++ gap.text)

def readQuoted (quote : Nat) : Scan Unit := do
  let state ← get
  skip
  let s ← readQuotedParts state.mark quote (state.size + 2) []
  skip
  append (.scalar s false) state.mark (← get).mark

/-! Block scalars -/

inductive Chomping where
  | strip
  | clip
  | keep
  deriving DecidableEq

def readChomping : Scan (Option Chomping) := do
  match ← peek with
  | 0x2B =>
    skip
    return some .keep
  | 0x2D =>
    skip
    return some .strip
  | _ => return none

def readIncrement (start : Mark) : Scan (Option Nat) := do
  let c ← peek
  if isDigitChar c then
    if c == 48 then failScan start "found an indentation indicator equal to 0"
    skip
    return some (c - 48)
  else return none

def readBlockHeader (start : Mark) : Scan (Chomping × Option Nat) := do
  match ← readChomping with
  | some chomping => return (chomping, ← readIncrement start)
  | none =>
    match ← readIncrement start with
    | some n => return ((← readChomping).getD .clip, some n)
    | none => return (.clip, none)

/-- Reads indentation and empty lines. While the indentation of the block is unknown, the widest
one is found on the way. -/
def readBlockBreaks (start : Mark) (indent : Option Nat) : Nat → Nat → Text → Scan (Nat × Text)
  | 0, widest, breaks => pure (widest, breaks)
  | fuel + 1, widest, breaks => do
    skipIndent fuel
    let column := (← get).mark.column
    let widest := max widest column
    let c ← peek
    if isInside column && isTab c then failScan start "found a tab character where an indentation space is expected"
    if isBreak c then
      let b ← readLine
      readBlockBreaks start indent fuel widest (breaks ++ b)
    else return (widest, breaks)
where
  isInside (column : Nat) : Bool := indent.all fun n => column < n
  skipIndent : Nat → Scan Unit
    | 0 => pure ()
    | fuel + 1 => do
      if isInside (← get).mark.column && isSpace (← peek) then
        skip
        skipIndent fuel

structure BlockText where
  text : Text := []
  first : Text := []
  more : Text := []
  /-- Whether the last line began with a blank. -/
  isIndented : Bool := false

def readBlockLines (start : Mark) (isLiteral : Bool) (indent : Nat) : Nat → BlockText → Scan BlockText
  | 0, b => pure b
  | fuel + 1, b => do
    let c ← peek
    if (← get).mark.column != indent || isEnd c then return b
    let folds := !isLiteral && !b.isIndented && !isBlank c && b.first.head? == some '\n'
    let joint : Text := if folds then (if b.more.isEmpty then " " else []) else b.first
    let line ← readWhile (fun c => !isBreakOrEnd c) fuel []
    let first ← readLine
    let (_, more) ← readBlockBreaks start (some indent) fuel 0 []
    readBlockLines start isLiteral indent fuel
      { text := b.text ++ joint ++ b.more ++ line, first, more, isIndented := isBlank c }

def readBlock (isLiteral : Bool) : Scan Unit := do
  let start := (← get).mark
  skip
  let (chomping, increment) ← readBlockHeader start
  endLine start
  let state ← get
  let known := increment.map fun n => (if state.indent ≥ 0 then state.indent.toNat + n else n)
  let (widest, breaks) ← readBlockBreaks start known state.size 0 []
  let indent := known.getD (max widest (max (state.indent + 1).toNat 1))
  let b ← readBlockLines start isLiteral indent state.size { more := breaks }
  let tail : Text := match chomping with
    | .strip => []
    | .clip => b.first
    | .keep => b.first ++ b.more
  append (.scalar (b.text ++ tail) false) start (← get).mark

end ScriptBuild.Yaml
