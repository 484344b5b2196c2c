import ScriptBuild.Toml.Document

/-! Formats of configuration files. -/

namespace ScriptBuild

open Text

inductive VariablesError where
  | openQuote
  | unset (line : Text)
  | malformed (line : Text)

def VariablesError.message : VariablesError → Text
  | .openQuote => "missing quotes"
  | .unset line => "line `" ++ line ++ "` has an unset variable"
  | .malformed line => "line `" ++ line ++ "` doesn't match format"

namespace Variables

/-! ### Lines -/

def unit (isBig : Bool) (a b : UInt8) : Nat :=
  if isBig then a.toNat * 256 + b.toNat else b.toNat * 256 + a.toNat

/-- UTF-16 as UTF-8. What is no character becomes the replacement character. -/
def ofUtf16 (isBig : Bool) : Text → Text
  | [] => []
  | [_] => ofRune Rune.replacement
  | [a, b] | [a, b, _] =>
    let u := unit isBig a b
    ofRune (if 0xD800 ≤ u && u < 0xE000 then Rune.replacement else u)
  | a :: b :: c :: d :: s =>
    let u := unit isBig a b
    let v := unit isBig c d
    if 0xD800 ≤ u && u < 0xE000 then
      if 0xDC00 ≤ v && v < 0xE000 then
        ofRune (if u < 0xDC00 then 0x10000 + (u - 0xD800) * 0x400 + (v - 0xDC00) else Rune.replacement) ++
          ofUtf16 isBig s
      else ofRune Rune.replacement ++ ofUtf16 isBig (c :: d :: s)
    else ofRune u ++ ofUtf16 isBig (c :: d :: s)
termination_by s => s.length

/-- The text of a file. A byte order mark at its beginning says how it is encoded. -/
def decode (content : Text) : Text :=
  match content with
  | 0xEF :: 0xBB :: 0xBF :: rest => (runes rest).flatMap fun r => ofRune r.code
  | 0xFF :: 0xFE :: rest => ofUtf16 false rest
  | 0xFE :: 0xFF :: rest => ofUtf16 true rest
  | _ => content

/-- Lines end with a line feed, a carriage return or both. -/
def lines : Text → List Text
  | [] => [[]]
  | 0x0D :: 0x0A :: s => [] :: lines s
  | b :: s =>
    if b == 10 || b == 13 then [] :: lines s
    else
      match lines s with
      | [] => [[b]]
      | line :: rest => (b :: line) :: rest

def lastIndexOf? (sep s : Text) : Option Nat := (cutLast? sep s).map (·.1.length)

def byteAt (s : Text) (i : Nat) : Option UInt8 := (s.drop i).head?

def isQuote (b : UInt8) : Bool := b == '"' || b == '\''

def openQuote? (line : Text) : Option UInt8 := do
  let i ← (indexOf? "=" line).or (indexOf? ":" line)
  if i == 0 || i + 1 ≥ line.length then none
  let value := trim (line.drop (i + 1))
  let quote ← value.head?.filter isQuote
  match lastIndexOf? [quote] (trim (value.drop 1)) with
  | none => some quote
  | some last => if byteAt value last == some 0x5C then some quote else none

def closes (quote : UInt8) (line : Text) : Bool :=
  match lastIndexOf? [quote] line with
  | none => false
  | some i => i == 0 || byteAt line (i - 1) != some 0x5C

/-- Goes on until a quote is closed. The result is the whole text and the lines after it. -/
def readOn (quote : UInt8) (text : Text) : List Text → Except VariablesError (Text × List Text)
  | [] => .error .openQuote
  | line :: rest =>
    let text := text ++ "\n" ++ line
    if closes quote line then .ok (text, rest) else readOn quote text rest

/-! ### Assignments -/

def isSpace (b : UInt8) : Bool := b == 32 || b == 9 || b == 10 || b == 12 || b == 13

def skipSpaces (s : Text) : Text := s.dropWhile isSpace

def isNameByte (b : UInt8) : Bool := isAlpha b || isDigit b || b == '_' || b == '.'

/-- Whether nothing follows but spaces and a comment. -/
def isTail (s : Text) : Bool :=
  match skipSpaces s with
  | [] => true
  | b :: rest => b == '#' && !rest.contains 10

/-- The greatest number of bytes up to a quote after which nothing follows. -/
def quotedLength? (quote : UInt8) (s : Text) : Option Nat :=
  (List.range s.length).reverse.find? fun n => n > 0 && byteAt s n == some quote && isTail (s.drop (n + 1))

def value? (s : Text) : Option Text :=
  let quoted : Option Text := do
    let n ← quotedLength? (← s.head?.filter isQuote) s
    return s.take (n + 1)
  let plain := s.takeWhile fun (b : UInt8) => b != '#' && b != 10
  quoted.or
    (if !plain.isEmpty && isTail (s.drop plain.length) then some plain
    else if isTail s then some []
    else none)

/-- What follows the name of a variable: an equals sign, or a colon and at least one space. -/
def afterName? (s : Text) : Option Text :=
  match s with
  | 0x3A :: rest =>
    let spaces := (rest.takeWhile isSpace).length
    (List.range spaces).findSome? fun n => value? (rest.drop (n + 1))
  | _ =>
    match skipSpaces s with
    | 0x3D :: rest => value? (skipSpaces rest)
    | _ => none

def assignment? (s : Text) : Option (Text × Text) :=
  let name := s.takeWhile isNameByte
  if name.isEmpty then none else (afterName? (s.drop name.length)).map fun value => (name, value)

def readLine? (line : Text) : Option (Text × Text) :=
  let line := skipSpaces line
  let exported : Option (Text × Text) := do
    let rest ← dropPrefix? "export" line
    if (rest.head?.map isSpace).getD false then assignment? (skipSpaces rest) else none
  exported.or (assignment? line)

/-! ### Values -/

/-- Takes backslashes away, except before dollar signs. -/
def unescape : Text → Text
  | 0x5C :: b :: s => if b == '$' then 0x5C :: b :: unescape s else b :: unescape s
  | b :: s => b :: unescape s
  | [] => []

def isVariableByte (b : UInt8) : Bool := isUpper b || isDigit b || b == '_'

/-- The value of the variable that a dollar sign stands before, and what follows. Without a name the
text stays as it is. -/
def expandOne (find : Text → Text) (s : Text) : Text × Text :=
  let brace : Text := if s.head? == some 0x7B then "\x7b" else []
  let name := (s.drop brace.length).takeWhile isVariableByte
  let rest := s.drop (brace.length + name.length)
  if name.isEmpty then ("$" ++ brace, rest) else (find name, dropPrefix "\x7d" rest)

def expand (find : Text → Text) : Nat → Text → Text
  | 0, s => s
  | _ + 1, [] => []
  | fuel + 1, 0x5C :: 0x24 :: s =>
    let brace := if s.head? == some 0x7B then 1 else 0
    let name := (s.drop brace).takeWhile isVariableByte
    let kept := s.take (brace + name.length)
    "$" ++ kept ++ expand find fuel (s.drop kept.length)
  | fuel + 1, b :: s =>
    if b == '$' then
      let (value, rest) := expandOne find s
      value ++ expand find fuel rest
    else b :: expand find fuel s

/-- A value without its quotes. In double quotes there may be escapes. -/
def evaluate (find : Text → Text) (value : Text) : Text :=
  let isIn (quote : UInt8) : Bool := value.length ≥ 2 && value.head? == some quote && value.getLast? == some quote
  let inside := (value.drop 1).dropLast
  if isIn 0x27 then inside
  else if isIn 0x22 then
    let text := unescape (replaceAll "\\r" "\r" (replaceAll "\\n" "\n" inside))
    expand find text.length text
  else expand find value.length value

def lookUp (environment assigned : Dictionary Text) (name : Text) : Text :=
  ((environment.find? name).or (assigned.find? name)).getD []

def refusal (assigned : Dictionary Text) (line : Text) : VariablesError :=
  let text := trim line
  match cut? " " text with
  | some (_, name) =>
    if startsWith text "export" && (assigned.find? name).isNone then .unset text else .malformed line
  | none => .malformed line

def readLines (environment : Dictionary Text) : Nat → Dictionary Text → List Text →
    Except VariablesError (Dictionary Text)
  | 0, assigned, _ => .ok assigned
  | _ + 1, assigned, [] => .ok assigned
  | fuel + 1, assigned, line :: rest => do
    let line := trim line
    if line.isEmpty || line.head? == some 0x23 then readLines environment fuel assigned rest
    else
      let (line, rest) ← match openQuote? line with
        | none => pure (line, rest)
        | some quote => readOn quote line rest
      match readLine? line with
      | none => throw (refusal assigned line)
      | some (name, value) =>
        let value := evaluate (lookUp environment assigned) (trim value)
        readLines environment fuel (assigned.insert name value) rest

def parse (environment : Dictionary Text) (content : Text) : Except VariablesError (Dictionary Text) :=
  let lines := lines (decode content)
  readLines environment (lines.length + 1) [] lines

end Variables

inductive SettingFormat where
  | yaml
  | json
  | toml
  | assignments
  /-- A format that is known and cannot be read. -/
  | unreadable

inductive SettingSyntaxError where
  | yaml (cause : Yaml.Error)
  | json (cause : JsonError)
  /-- A value of the wrong sort for the whole file. -/
  | jsonSort (sort : Text)
  | jsonNumber (cause : Setting.LargeNumber)
  | toml (cause : Toml.Error)
  | assignments (cause : VariablesError)
  | noReader

/-- A key of a path, with the bytes escaped that divide and escape the keys of a pointer. -/
def pathPart (key : Text) : Text := replaceAll "/" "~1" (replaceAll "~" "~0" key)

/-- Where a number is; a position in an array is told apart from a key. -/
def Setting.LargeNumber.place (n : Setting.LargeNumber) : Text :=
  let isPosition := ((n.path.getLast?).bind toNat?).isSome
  (if isPosition then "into ." else "into Go struct field .") ++ join "." (n.path.map pathPart)

def SettingSyntaxError.message : SettingSyntaxError → Text
  | .yaml cause => cause.message
  | .json cause => cause.message
  | .jsonSort sort => "json: cannot unmarshal " ++ sort ++ " into Go value of type map[string]interface \x7b\x7d"
  | .jsonNumber cause => "json: cannot unmarshal number " ++ cause.number ++ " " ++ cause.place ++ " of type float64"
  | .toml cause => cause.message
  | .assignments cause => cause.message
  | .noReader => "decoder not found for this format"

namespace SettingFormat

def extensions : List (Text × SettingFormat) :=
  [("json", .json), ("toml", .toml), ("yaml", .yaml), ("yml", .yaml), ("properties", .unreadable),
    ("props", .unreadable), ("prop", .unreadable), ("hcl", .unreadable), ("tfvars", .unreadable),
    ("dotenv", .assignments), ("env", .assignments), ("ini", .unreadable)]

def ofExtension? (ext : Text) : Option SettingFormat := extensions.lookup ext

def parseVariables (environment : Dictionary Text) (content : Text) : Except SettingSyntaxError (Dictionary Setting) :=
  ((Variables.parse environment content).map fun assigned =>
    assigned.map fun (name, value) => (name, .text value)).mapError .assignments

def jsonSort : Json → Text
  | .bool _ => "bool"
  | .number _ => "number"
  | .string _ => "string"
  | _ => "array"

def parseJson (content : Text) : Except SettingSyntaxError (Dictionary Setting) := do
  let j ← (Json.parse content).mapError .json
  match j, Setting.ofJson [] j with
  | .null, _ => .ok []
  | .object _, .ok (.table members) => .ok members
  | .object _, .error number => .error (.jsonNumber number)
  | j, _ => .error (.jsonSort (jsonSort j))

def parseYaml (content : Text) : Except SettingSyntaxError (Dictionary Setting) := do
  let d ← (Yaml.Document.parse content).mapError .yaml
  match Setting.ofYaml (← (d.decode (.table .any) (2 * content.length + 100)).mapError .yaml) with
  | .table members => return members
  | _ => return []

def parse (f : SettingFormat) (environment : Dictionary Text) (content : Text) :
    Except SettingSyntaxError (Dictionary Setting) :=
  let members :=
    match f with
    | .yaml => parseYaml content
    | .json => parseJson content
    | .toml => (Toml.parse content).mapError .toml
    | .assignments => parseVariables environment content
    | .unreadable => .error .noReader
  members.map Setting.loweredMembers

end SettingFormat

end ScriptBuild
