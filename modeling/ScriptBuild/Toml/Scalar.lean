import ScriptBuild.Setting.Basic

/-! Numbers, dates and times of TOML documents. -/

namespace ScriptBuild.Toml

open Text

structure Error where
  problem : Text

def Error.message (e : Error) : Text := "toml: " ++ e.problem

def fail {α : Type} (problem : Text) : Except Error α := .error ⟨problem⟩

/-- A byte with its number, as in `U+0041 'A'`. -/
def shownByte (b : UInt8) : Text :=
  "U+" ++ (ofHex 4 b.toNat).map upperByte ++
    onlyIf (Rune.isPrintable b.toNat) (" '" ++ ofRune b.toNat ++ "'")

/-- Whether a document may hold a code point: tabs and line breaks are its only control characters. -/
def isAllowed (r : Rune) : Bool :=
  r.valid && (0x20 ≤ r.code || r.code == 9 || r.code == 10 || r.code == 13) && r.code != 0x7F

def prepend (s : Text) : Except Error (Text × Text) → Except Error (Text × Text) :=
  Except.map fun (body, rest) => (s ++ body, rest)

def scanBasic : Text → Except Error (Text × Text)
  | [] => fail "basic string not terminated by \""
  | 0x5C :: e :: s => prepend [0x5C, e] (scanBasic s)
  | b :: s =>
    if b == '"' then .ok ([], s)
    else if b == 10 || b == 13 then fail "basic strings cannot have new lines"
    else if b == '\\' then fail "need a character after \\"
    else prepend [b] (scanBasic s)

/-- The code point of a number of hexadecimal digits. They are looked for in the quotes after the body,
too, where these are given as `closing`. -/
def escapedRune (count : Nat) (closing s : Text) : Except Error (Text × Text) :=
  let digits := (s ++ closing).take count
  let code := hexValue digits
  if digits.length < count then
    fail ("unicode point needs " ++ ofNat count ++ " character, not " ++ ofNat digits.length)
  else if !digits.all isHex then fail "non-hex character"
  else if code > 0x10FFFF || (0xD800 ≤ code && code < 0xE000) then fail "escape sequence is invalid Unicode code point"
  else .ok (ofRune code, s.drop count)

def escapes : List (UInt8 × UInt8) :=
  [('b', 8), ('f', 12), ('n', 10), ('r', 13), ('t', 9), ('e', 27), ('\\', '\\'), ('"', '"')]

def unescapeOne (closing : Text) (b : UInt8) (s : Text) : Except Error (Text × Text) :=
  if b == 'u' then escapedRune 4 closing s
  else if b == 'U' then escapedRune 8 closing s
  else
    match escapes.lookup b with
    | some c => .ok ([c], s)
    | none => fail ("invalid escaped character " ++ shownByte b)

def isSpace (b : UInt8) : Bool := b == 32 || b == 9

def skipSpaces (s : Text) : Text := s.dropWhile isSpace

def endsLine (s : Text) : Bool := startsWith (skipSpaces s) "\n" || startsWith (skipSpaces s) "\r\n"

/-- A body with its escapes resolved. In a long string a backslash at the end of a line takes the
blanks and line breaks after it away. -/
def unescape (isLong : Bool) : Nat → Text → Except Error Text
  | 0, _ | _ + 1, [] => .ok []
  | fuel + 1, b :: s =>
    if b == '\\' then
      if isLong && endsLine s then unescape isLong fuel (s.dropWhile fun b => isSpace b || b == 10 || b == 13)
      else
        match s with
        | [] => .ok []
        | e :: s => do
          let (first, s) ← unescapeOne (onlyIf isLong "\"\"\"") e s
          return first ++ (← unescape isLong fuel s)
    else
      let rune := Rune.read b s
      if isAllowed rune then
        (unescape isLong fuel (s.drop (rune.bytes.length - 1))).map fun rest => rune.bytes ++ rest
      else fail ("invalid character " ++ shownByte b)

def basicBody (isLong : Bool) (body : Text) : Except Error Text :=
  if body.contains 0x5C then unescape isLong body.length body
  else if body.runes.all isAllowed then .ok body
  else fail "invalid UTF-8"

def basicString (s : Text) : Except Error (Text × Text) := do
  let (body, rest) ← scanBasic s
  return (← basicBody false body, rest)

def scanLiteral : Nat → Text → Except Error (Text × Text)
  | 0, _ | _ + 1, [] => fail "unterminated literal string"
  | fuel + 1, b :: s =>
    let rune := Rune.read b s
    if b == '\'' then .ok ([], s)
    else if b == 10 || b == 13 then fail "literal strings cannot have new lines"
    else if !isAllowed rune then fail "invalid character"
    else prepend rune.bytes (scanLiteral fuel (s.drop (rune.bytes.length - 1)))

def literalString (s : Text) : Except Error (Text × Text) := scanLiteral (s.length + 1) s

def dropBreak (s : Text) : Text :=
  if startsWith s "\r\n" then s.drop 2 else if s.head? == some 10 then s.drop 1 else s

/-- The rest after three closing quotes. Up to two more belong to the body. -/
def closeLong (quote : UInt8) (sort : Text) (s : Text) : Except Error (Text × Text) :=
  let extra := (s.takeWhile (· == quote)).take 2
  let rest := s.drop extra.length
  if extra.length == 2 && rest.head? == some quote then
    fail ([quote, quote, quote] ++ " not allowed in multiline " ++ sort ++ " string")
  else .ok (extra, rest)

def scanLongBasic : Text → Except Error (Text × Text)
  | [] => fail "multiline basic string not terminated by \"\"\""
  | 0x22 :: 0x22 :: 0x22 :: s => closeLong 0x22 "basic" s
  | 0x5C :: e :: s => prepend [0x5C, e] (scanLongBasic s)
  | 0x0D :: 0x0A :: s => prepend "\r\n" (scanLongBasic s)
  | b :: s =>
    if b == '\\' then fail "need a character after \\"
    else if b == 13 then fail "need a \\n after \\r"
    else prepend [b] (scanLongBasic s)

def scanLongLiteral : Nat → Text → Except Error (Text × Text)
  | _, 0x27 :: 0x27 :: 0x27 :: s => closeLong 0x27 "literal" s
  | 0, _ | _ + 1, [] => fail "multiline literal string not terminated by '''"
  | fuel + 1, 0x0D :: 0x0A :: s => prepend "\r\n" (scanLongLiteral fuel s)
  | fuel + 1, b :: s =>
    let rune := Rune.read b s
    if b == 13 then fail "need a \\n after \\r"
    else if !isAllowed rune then fail "invalid character"
    else prepend rune.bytes (scanLongLiteral fuel (s.drop (rune.bytes.length - 1)))

def quotedString (s : Text) : Except Error (Text × Text) :=
  if startsWith s "\"\"\"" then do
    let (body, rest) ← scanLongBasic (s.drop 3)
    return (← basicBody true (dropBreak body), rest)
  else if startsWith s "'''" then
    (scanLongLiteral s.length (s.drop 3)).map fun (body, rest) => (dropBreak body, rest)
  else if s.head? == some 0x22 then basicString (s.drop 1)
  else literalString (s.drop 1)

/-- A word and what it has to be. -/
inductive Word where
  | integer (text : Text)
  | float (text : Text)
  | moment (type : MomentType) (text : Text)

/-! ### Cutting -/

def numberWord (isFloat : Bool) (text : Text) : Word := if isFloat then .float text else .integer text

def scanDecimal : Bool → Text → Except Error (Bool × Text × Text)
  | isFloat, [] => .ok (isFloat, [], [])
  | isFloat, b :: s =>
    let more (isFloat : Bool) : Except Error (Bool × Text × Text) :=
      (scanDecimal isFloat s).map fun (isFloat, text, rest) => (isFloat, b :: text, rest)
    if isDigit b || b == '+' || b == '-' || b == '_' then more isFloat
    else if b == '.' || b == 'e' || b == 'E' then more true
    else if b == 'i' || b == 'n' then
      if startsWith s (if b == 'i' then "nf" else "an") then .ok (true, b :: s.take 2, s.drop 2)
      else fail ("unexpected character '" ++ [b] ++ "' while scanning for a number")
    else .ok (isFloat, [], b :: s)

def isHexByte (b : UInt8) : Bool := isHex b || b == '_'

def isOctalByte (b : UInt8) : Bool := ('0' ≤ b && b ≤ '7') || b == '_'

def isBinaryByte (b : UInt8) : Bool := b == '0' || b == '1' || b == '_'

/-- A number that begins with a zero and has two more bytes. -/
def scanZero (b : UInt8) (s : Text) : Word × Text :=
  let digits (isDigit : UInt8 → Bool) : Word × Text :=
    (.integer (0x30 :: b :: s.takeWhile isDigit), s.dropWhile isDigit)
  if b == 'x' then digits isHexByte
  else if b == 'o' then digits isOctalByte
  else if b == 'b' then digits isBinaryByte
  else (.integer [0x30], b :: s)

def scanNumber (s : Text) : Except Error (Word × Text) :=
  let decimal : Except Error (Word × Text) := do
    let (isFloat, text, rest) ← scanDecimal false s
    if text.isEmpty then fail "incomplete number" else return (numberWord isFloat text, rest)
  match s with
  | 0x30 :: b :: c :: s => if b == '.' || b == 'e' || b == 'E' then decimal else .ok (scanZero b (c :: s))
  | _ => decimal

structure MomentMarks where
  hasDate : Bool := false
  hasTime : Bool := false
  hasZone : Bool := false

def MomentMarks.type (m : MomentMarks) : MomentType :=
  if m.hasTime then
    if m.hasDate then (if m.hasZone then .instant else .localDateTime) else .localTime
  else .localDate

/-- The bytes of a date or a time at position `i`. One space may stand before a digit; the byte
after that digit is taken as it is. -/
def scanMoment : Nat → Nat → Bool → MomentMarks → Text → MomentMarks × Text × Text
  | 0, _, _, m, s => (m, [], s)
  | _ + 1, _, _, m, [] => (m, [], [])
  | fuel + 1, i, sawSpace, m, b :: s =>
    let more (m : MomentMarks) : MomentMarks × Text × Text :=
      let (m, text, rest) := scanMoment fuel (i + 1) sawSpace m s
      (m, b :: text, rest)
    if isDigit b then more m
    else if b == '-' then more { m with hasDate := true, hasZone := m.hasZone || 8 ≤ i }
    else if b == 'T' || b == 't' || b == ':' || b == '.' then more { m with hasTime := true }
    else if b == '+' || b == 'Z' || b == 'z' then more { m with hasZone := true }
    else if b == ' ' && !sawSpace && (s.head?.map isDigit).getD false then
      let (m, text, rest) := scanMoment fuel (i + 3) true { m with hasTime := true } (s.drop 2)
      (m, b :: s.take 2 ++ text, rest)
    else (m, [], b :: s)

/-- Whether a word is a date or a time: two digits and a colon, or four digits and a hyphen. -/
def startsMoment (s : Text) : Bool :=
  let digits := (s.take 5).takeWhile isDigit
  let mark := (s.drop digits.length).head?
  s.length ≥ 3 && ((digits.length == 2 && mark == some 0x3A) || (digits.length == 4 && mark == some 0x2D))

def scanWord (s : Text) : Except Error (Word × Text) :=
  let special (name : Text) : Except Error (Word × Text) :=
    if startsWith s name then .ok (.float name, s.drop 3) else fail ("expected '" ++ name ++ "'")
  if s.head? == some 0x69 then special "inf"
  else if s.head? == some 0x6E then special "nan"
  else if startsMoment s then
    let (marks, text, rest) := scanMoment s.length 0 false {} s
    .ok (.moment marks.type text, rest)
  else scanNumber s

/-! ### Numbers -/

/-- Whether an underscore has to be refused: each needs a digit before it since the last one. -/
def underscoresPaired : Bool → Text → Bool
  | _, [] => true
  | hasDigit, b :: s => if b == '_' then hasDigit && underscoresPaired false s else underscoresPaired true s

def withoutUnderscores (s : Text) : Text := s.filter fun (b : UInt8) => b != '_'

def withoutSign (s : Text) : Text := trimLeftBytes (fun b => b == '+' || b == '-') (s.take 1) ++ s.drop 1

/-- The digits of an integer without underscores. What stands before the first underscore counts
as no digit. -/
def cleanInteger (s : Text) : Except Error Text :=
  let body := withoutSign s
  if body.isEmpty then .ok s
  else if body.head? == some 0x5F then fail "number cannot start with underscore"
  else if s.getLast? == some 0x5F then fail "number cannot end with underscore"
  else if underscoresPaired false ((cut "_" s).2) then .ok (withoutUnderscores s)
  else fail "number must have at least one digit between underscores"

def unparsed {α : Type} (lead function text : Text) (f : Integer.Fault) : Except Error α :=
  fail (lead ++ ": strconv." ++ function ++ ": parsing " ++ text.quote ++ ": " ++ f.message)

def integerIn (base : Nat) (name digits : Text) : Except Error Int :=
  match Integer.parseIn base digits with
  | .ok n => .ok n
  | .error f => unparsed ("couldn't parse " ++ name ++ " number") "ParseInt" digits f

def basedInteger (base : Nat) (name digits : Text) : Except Error Int := do
  integerIn base name (← cleanInteger digits)

/-- A beginning that tells the base counts only if digits follow it. -/
def integerOf (s : Text) : Except Error Int :=
  let digits := s.drop 2
  if startsWith s "0x" && !digits.isEmpty then basedInteger 16 "hexadecimal" digits
  else if startsWith s "0o" && !digits.isEmpty then basedInteger 8 "octal" digits
  else if startsWith s "0b" && !digits.isEmpty then basedInteger 2 "binary" digits
  else do
    let digits ← cleanInteger s
    let body := withoutSign digits
    if body.length > 1 && body.head? == some 0x30 then fail "leading zero not allowed on decimal number"
    integerIn 10 "decimal" digits

def isExponentByte (b : Option UInt8) : Bool := b == some 0x65 || b == some 0x45

/-- A floating point number without underscores. `before` is the byte read last. -/
def cleanFloat : Option UInt8 → Bool → Text → Except Error Text
  | _, _, [] => .ok []
  | before, hasDigit, b :: s => do
    let isNextUnderscore := s.head? == some 0x5F
    if b == '_' then
      if !hasDigit then fail "number must have at least one digit between underscores"
      if isExponentByte s.head? then fail "cannot have underscore before exponent"
      cleanFloat (some b) false s
    else if b == '+' || b == '-' then return b :: (← cleanFloat (some b) false s)
    else if b == 'e' || b == 'E' then
      if isNextUnderscore then fail "cannot have underscore after exponent"
      return b :: (← cleanFloat (some b) hasDigit s)
    else if b == '.' then
      if isNextUnderscore then fail "cannot have underscore after decimal point"
      if before == some 0x5F then fail "cannot have underscore before decimal point"
      return b :: (← cleanFloat (some b) hasDigit s)
    else return b :: (← cleanFloat (some b) true s)

def checkPoints : Bool → Option UInt8 → Text → Except Error Unit
  | _, _, [] => .ok ()
  | hasPoint, before, b :: s => do
    let isDigit (b : Option UInt8) : Bool := (b.map isDigit).getD false
    if b == '.' then
      if hasPoint then fail "float can have at most one decimal point"
      if !isDigit before then fail "float decimal point must be preceded by a digit"
      if !isDigit s.head? then fail "float decimal point must be followed by a digit"
      checkPoints true (some b) s
    else checkPoints hasPoint (some b) s

def floatOf (s : Text) : Except Error Float := do
  if s == "+nan" || s == "-nan" then return 0.0 / 0.0
  if s.head? == some 0x5F then fail "number cannot start with underscore"
  if s.getLast? == some 0x5F then fail "number cannot end with underscore"
  let clean ← if s.contains 0x5F then cleanFloat none false s else pure s
  if clean.head? == some 0x2E then fail "float cannot start with a dot"
  if clean.getLast? == some 0x2E then fail "float cannot end with a dot"
  checkPoints false none clean
  let body := withoutSign clean
  if body.head? == some 0x30 && ((body.drop 1).head?.map isDigit).getD false then
    fail "float integer part cannot have leading zeroes"
  match Decimal.parseFloat clean with
  | .ok x => return x
  | .error f => unparsed "unable to parse float" "ParseFloat" clean f

/-! ### Dates and times -/

def decimalDigits (s : Text) : Except Error Nat :=
  if s.all isDigit then .ok (digitsValue s) else fail "expected digit (0-9)"

def byteAt (s : Text) (i : Nat) : Option UInt8 := (s.drop i).head?

def checkDate (s : Text) : Except Error Unit := do
  if s.length != 10 || byteAt s 4 != some 0x2D || byteAt s 7 != some 0x2D then
    fail "dates are expected to have the format YYYY-MM-DD"
  let year ← decimalDigits (s.take 4)
  let month ← decimalDigits ((s.drop 5).take 2)
  let day ← decimalDigits (s.drop 8)
  if month < 1 || month > 12 || day < 1 || day > Calendar.daysIn year month then fail "impossible date"

def checkTime (s : Text) : Except Error Text := do
  if s.length < 8 then fail "times are expected to have the format HH:MM:SS[.NNNNNN]"
  if (← decimalDigits (s.take 2)) > 23 then fail "hour cannot be greater 23"
  if byteAt s 2 != some 0x3A then fail "expecting colon between hours and minutes"
  if (← decimalDigits ((s.drop 3).take 2)) > 59 then fail "minutes cannot be greater 59"
  if byteAt s 5 != some 0x3A then fail "expecting colon between minutes and seconds"
  if (← decimalDigits ((s.drop 6).take 2)) > 60 then fail "seconds cannot be greater 60"
  match s.drop 8 with
  | [0x2E] => fail "nanoseconds need at least one digit"
  | 0x2E :: rest =>
    if (rest.takeWhile isDigit).isEmpty then fail "need at least one digit after fraction point"
    return rest.dropWhile isDigit
  | rest => return rest

def checkDateTime (s : Text) : Except Error Text := do
  if s.length < 11 then
    fail "local datetimes are expected to have the format YYYY-MM-DDTHH:MM:SS[.NNNNNNNNN]"
  checkDate (s.take 10)
  let mark := byteAt s 10
  if mark != some 0x54 && mark != some 0x20 && mark != some 0x74 then
    fail "datetime separator is expected to be T or a space"
  checkTime (s.drop 11)

def checkZone (s : Text) : Except Error Unit := do
  if s.head? == some 0x5A || s.head? == some 0x7A then
    if s.length > 1 then fail "extra bytes at the end of the timezone"
  else
    if s.length != 6 then fail "invalid date-time timezone"
    if s.head? != some 0x2D && s.head? != some 0x2B then fail "invalid timezone offset character"
    if byteAt s 3 != some 0x3A then fail "expected a : separator"
    if (← decimalDigits ((s.drop 1).take 2)) > 23 then fail "invalid timezone offset hours"
    if (← decimalDigits (s.drop 4)) > 59 then fail "invalid timezone offset minutes"

def checkMoment (type : MomentType) (s : Text) : Except Error Unit := do
  match type with
  | .instant => checkZone (← checkDateTime s)
  | .localDateTime => if !(← checkDateTime s).isEmpty then fail "extra bytes at the end of a local date time"
  | .localTime => if !(← checkTime s).isEmpty then fail "extra bytes at the end of a local time"
  | .localDate => checkDate s

def Word.setting : Word → Except Error Setting
  | .integer s => (integerOf s).map (.integer .signed)
  | .float s => (floatOf s).map .float
  | .moment type s => (checkMoment type s).map fun _ => .moment type

end ScriptBuild.Toml
