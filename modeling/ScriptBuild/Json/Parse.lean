import ScriptBuild.Json.Basic
import ScriptBuild.Text.Quoted

/-! Reading of JSON texts. -/

namespace ScriptBuild

open Text

inductive JsonError where
  | unexpectedEnd
  | invalid (rest : Text) (context : Text)
  | invalidEscape (escape : Text)
  | tooDeep

namespace JsonError

/-- The first character of a text in single quotes; a byte that begins no character is shown by its
value. -/
def quoteFirst : Text → Text
  | [] => "''"
  | b :: s =>
    let r := Rune.read b s
    if r.valid then quoteRune r.code else "'\\x" ++ ofHex 1 b.toNat ++ "'"

def isPlain (r : Rune) : Bool :=
  r.code != 0x60 && r.code != Rune.replacement && !Rune.isBlank r.code && Rune.isPrintable r.code

def message : JsonError → Text
  | .unexpectedEnd => "unexpected end of JSON input"
  | .invalid rest context => "invalid character " ++ quoteFirst rest ++ " " ++ context
  | .invalidEscape escape =>
    let shown : Text := if escape.runes.all isPlain then "`" ++ escape ++ "`" else escape.quote
    "invalid escape sequence " ++ shown ++ " in string"
  | .tooDeep => "exceeded max depth"

end JsonError

namespace Json

def isBlank (b : UInt8) : Bool := b == 32 || b == 9 || b == 10 || b == 13

def skipBlanks (s : Text) : Text := s.dropWhile isBlank

def refuse {α : Type} (s : Text) (context : Text) : Except JsonError α :=
  if s.isEmpty then .error .unexpectedEnd else .error (.invalid s context)

/-! ### Words and numbers -/

def parseWord (word : Text) : Text → Text → Except JsonError Text
  | [], s => .ok s
  | c :: cs, s =>
    match s with
    | b :: rest =>
      if b == c then parseWord word cs rest
      else refuse s ("in literal " ++ word ++ " (expecting " ++ JsonError.quoteFirst [c] ++ ")")
    | [] => .error .unexpectedEnd

def parseDigits (s : Text) : Except JsonError (Text × Text) :=
  let digits := s.takeWhile isDigit
  if digits.isEmpty then refuse s "in numeric literal" else .ok (digits, s.drop digits.length)

def parseExponent (s : Text) : Except JsonError (Text × Text) := do
  match s with
  | e :: rest =>
    if lowerByte e != 'e' then return ([], s)
    let sign := (rest.take 1).filter fun (b : UInt8) => b == '+' || b == '-'
    let (digits, rest) ← parseDigits (rest.drop sign.length)
    return (e :: sign ++ digits, rest)
  | [] => return ([], [])

def parseFraction (s : Text) : Except JsonError (Text × Text) := do
  match s with
  | 0x2E :: rest =>
    let (digits, rest) ← parseDigits rest
    return (0x2E :: digits, rest)
  | _ => return ([], s)

def parseNumber (s : Text) : Except JsonError (Text × Text) := do
  let sign : Text := if s.head? == some 0x2D then "-" else []
  let s := s.drop sign.length
  let (whole, s) ←
    match s with
    | 0x30 :: rest => .ok ([0x30], rest)
    | _ => parseDigits s
  let (fraction, s) ← parseFraction s
  let (exponent, s) ← parseExponent s
  return (sign ++ whole ++ fraction ++ exponent, s)

/-! ### Strings -/

def isHighSurrogate (n : Nat) : Bool := 0xD800 ≤ n && n < 0xDC00

def isLowSurrogate (n : Nat) : Bool := 0xDC00 ≤ n && n < 0xE000

def unit? (s : Text) : Option Nat :=
  let digits := (s.drop 2).take 4
  if startsWith s "\\u" && digits.length == 4 && digits.all isHex then some (hexValue digits) else none

def escapes : List (UInt8 × UInt8) :=
  [('b', 8), ('f', 12), ('n', 10), ('r', 13), ('t', 9), ('\\', '\\'), ('/', '/'), ('"', '"')]

/-- The code point that an escape stands for, and the length of the escape. Surrogates without a
partner stand for the replacement character. -/
def readEscape (s : Text) : Except JsonError (Nat × Nat) :=
  match s.drop 1 with
  | [] => .error .unexpectedEnd
  | b :: digits =>
    if b == 'u' then
      match unit? s with
      | none =>
        if digits.length < 4 && digits.all isHex then .error .unexpectedEnd
        else .error (.invalidEscape (s.take 6))
      | some high =>
        let low := (unit? (s.drop 6)).getD 0
        if isHighSurrogate high && isLowSurrogate low then
          .ok (0x10000 + (high - 0xD800) * 0x400 + (low - 0xDC00), 12)
        else .ok (if isHighSurrogate high || isLowSurrogate high then Rune.replacement else high, 6)
    else
      match escapes.lookup b with
      | some c => .ok (c.toNat, 2)
      | none => .error (.invalidEscape (s.take 2))

/-- The text up to the closing quote, and what follows it. The text so far is kept in reverse, and
`skip` counts the bytes that belong to what was read last. -/
def readString : Nat → Text → Text → Except JsonError (Text × Text)
  | _, _, [] => .error .unexpectedEnd
  | skip + 1, read, _ :: s => readString skip read s
  | 0, read, b :: s =>
    if b == '"' then .ok (read.reverse, s)
    else if b == '\\' then
      match readEscape (b :: s) with
      | .error e => .error e
      | .ok (code, width) => readString (width - 1) ((Text.ofRune code).reverse ++ read) s
    else if b < 32 then refuse (b :: s) "in string"
    else if b < 128 then readString 0 (b :: read) s
    else
      let r := Rune.read b s
      readString (r.bytes.length - 1) ((Text.ofRune r.code).reverse ++ read) s

def parseString (s : Text) : Except JsonError (Text × Text) := readString 0 [] s

/-! ### Values -/

def maxDepth : Nat := 10000

mutual

/-- A value, and what follows it. `depth` counts the arrays and objects around it. -/
def parseValue : Nat → Nat → Text → Except JsonError (Json × Text)
  | 0, _, _ => .error .unexpectedEnd
  | fuel + 1, depth, s =>
    match skipBlanks s with
    | [] => .error .unexpectedEnd
    | b :: rest =>
      if (b == '\x7b' || b == '[') && depth == maxDepth then .error .tooDeep
      else if b == '\x7b' then
        match skipBlanks rest with
        | 0x7D :: rest => .ok (.object [], rest)
        | rest => parseMembers fuel (depth + 1) [] rest
      else if b == '[' then
        match skipBlanks rest with
        | 0x5D :: rest => .ok (.array [], rest)
        | rest => parseItems fuel (depth + 1) [] rest
      else if b == '"' then (parseString rest).map fun (s, rest) => (.string s, rest)
      else if b == '-' || isDigit b then (parseNumber (b :: rest)).map fun (n, rest) => (.number n, rest)
      else if b == 't' then (parseWord "true" "rue" rest).map fun rest => (.bool true, rest)
      else if b == 'f' then (parseWord "false" "alse" rest).map fun rest => (.bool false, rest)
      else if b == 'n' then (parseWord "null" "ull" rest).map fun rest => (.null, rest)
      else refuse (b :: rest) "looking for beginning of value"

def parseItems : Nat → Nat → List Json → Text → Except JsonError (Json × Text)
  | 0, _, _, _ => .error .unexpectedEnd
  | fuel + 1, depth, items, s => do
    let (x, s) ← parseValue fuel depth s
    match skipBlanks s with
    | 0x2C :: rest => parseItems fuel depth (x :: items) rest
    | 0x5D :: rest => return (.array (x :: items).reverse, rest)
    | rest => refuse rest "after array element"

def parseMembers : Nat → Nat → List (Text × Json) → Text → Except JsonError (Json × Text)
  | 0, _, _, _ => .error .unexpectedEnd
  | fuel + 1, depth, members, s => do
    let (key, s) ←
      match skipBlanks s with
      | 0x22 :: rest => parseString rest
      | rest => refuse rest "looking for beginning of object key string"
    let s ←
      match skipBlanks s with
      | 0x3A :: rest => .ok rest
      | rest => refuse rest "after object key"
    let (x, s) ← parseValue fuel depth s
    match skipBlanks s with
    | 0x2C :: rest => parseMembers fuel depth ((key, x) :: members) rest
    | 0x7D :: rest => return (.object ((key, x) :: members).reverse, rest)
    | rest => refuse rest "after object key:value pair"

end

def parse (s : Text) : Except JsonError Json := do
  let (x, rest) ← parseValue (s.length + 1) 0 s
  match skipBlanks rest with
  | [] => return x
  | rest => refuse rest "after top-level value"

end Json

end ScriptBuild
