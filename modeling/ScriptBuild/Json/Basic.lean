import ScriptBuild.Number.Shortest
import ScriptBuild.Text.Rune

/-! JSON values and their text. -/

namespace ScriptBuild

inductive Json where
  | null
  | bool (b : Bool)
  | number (text : Text)
  | string (s : Text)
  | array (xs : List Json)
  | object (members : List (Text × Json))
  deriving Inhabited

namespace Json

def nat (n : Nat) : Json := .number (Text.ofNat n)

def int (n : Int) : Json := .number (Text.ofInt n)

/-- The shortest text of a number; numbers below `10⁻⁶` and from `10²¹` on have an exponent. -/
def ofFloat (x : Float) : Json :=
  let (digits, point) := (Binary.ofFloat x).shortest
  let isPlain := x == 0.0 || (-5 ≤ point && point ≤ 21)
  let e := point - 1
  let body : Text :=
    if isPlain then FloatText.positional digits point
    else digits.take 1 ++ (if digits.length > 1 then "." ++ digits.drop 1 else []) ++
      (if e < 0 then "e-" else "e+") ++ Text.ofNat e.natAbs
  .number (if FloatText.isNegative x then "-" ++ body else body)

def strings (xs : List Text) : Json := .array (xs.map .string)

def texts (members : List (Text × Text)) : Json := .object (members.map fun (key, s) => (key, .string s))

def memberIf (isPresent : Bool) (key : Text) (value : Json) : List (Text × Json) :=
  if isPresent then [(key, value)] else []

/-- A character inside quotes. Besides what the format requires, the line separators are escaped, and
if `isWide` also characters that matter to HTML; bytes that are not UTF-8 become replacement characters. -/
def escapeRune (isWide : Bool) (r : Rune) : Text :=
  if !r.valid then "\\ufffd"
  else if r.code == 0x22 then "\\\""
  else if r.code == 0x5C then "\\\\"
  else if isWide && r.code == 8 then "\\b"
  else if isWide && r.code == 12 then "\\f"
  else if r.code == 10 then "\\n"
  else if r.code == 13 then "\\r"
  else if r.code == 9 then "\\t"
  else if r.code < 0x20 || r.code == 0x2028 || r.code == 0x2029 ||
      (isWide && (r.code == 0x3C || r.code == 0x3E || r.code == 0x26)) then
    "\\u" ++ Text.ofHex 4 r.code
  else r.bytes

def quotedIn (isWide : Bool) (s : Text) : Text := "\"" ++ s.runes.flatMap (escapeRune isWide) ++ "\""

def quoted (s : Text) : Text := quotedIn true s

mutual

def compact : Json → Text
  | .null => "null"
  | .bool b => if b then "true" else "false"
  | .number t => t
  | .string s => quoted s
  | .array xs => "[" ++ compactItems xs ++ "]"
  | .object members => "\x7b" ++ compactMembers members ++ "\x7d"

def compactItems : List Json → Text
  | [] => []
  | [x] => compact x
  | x :: xs => compact x ++ "," ++ compactItems xs

def compactMembers : List (Text × Json) → Text
  | [] => []
  | [(key, x)] => quoted key ++ ":" ++ compact x
  | (key, x) :: rest => quoted key ++ ":" ++ compact x ++ "," ++ compactMembers rest

end

def newline (depth : Nat) : Text := "\n" ++ List.replicate (2 * depth) (32 : UInt8)

mutual

/-- The text with every item on a line of its own, two spaces for each level. -/
def pretty (depth : Nat) : Json → Text
  | .array [] => "[]"
  | .array xs => "[" ++ newline (depth + 1) ++ prettyItems (depth + 1) xs ++ newline depth ++ "]"
  | .object [] => "\x7b\x7d"
  | .object members =>
    "\x7b" ++ newline (depth + 1) ++ prettyMembers (depth + 1) members ++ newline depth ++ "\x7d"
  | x => x.compact

def prettyItems (depth : Nat) : List Json → Text
  | [] => []
  | [x] => pretty depth x
  | x :: xs => pretty depth x ++ "," ++ newline depth ++ prettyItems depth xs

def prettyMembers (depth : Nat) : List (Text × Json) → Text
  | [] => []
  | [(key, x)] => quoted key ++ ": " ++ pretty depth x
  | (key, x) :: rest =>
    quoted key ++ ": " ++ pretty depth x ++ "," ++ newline depth ++ prettyMembers depth rest

end

end Json

end ScriptBuild
