import ScriptBuild.Text.Basic

/-! Numbers with a point and an exponent, read as floating point numbers. -/

namespace ScriptBuild.Integer

inductive Fault where
  | malformed
  | outOfRange
  deriving DecidableEq

def Fault.message : Fault → Text
  | .malformed => "invalid syntax"
  | .outOfRange => "value out of range"

def digit? (base : Nat) (b : UInt8) : Option Nat :=
  let lower := Text.lowerByte b
  let value :=
    if Text.isDigit b then some (b.toNat - 48)
    else if Text.isLower lower then some (lower.toNat - 87)
    else none
  value.filter (· < base)

/-- The value of digits after those with the value `n`. What follows a number that is too large is
not looked at. -/
def digitsFrom (base : Nat) (skipsUnderscores : Bool) : Nat → Text → Except Fault Nat
  | n, [] => .ok n
  | n, b :: s =>
    if skipsUnderscores && b == '_' then digitsFrom base skipsUnderscores n s
    else
      match digit? base b with
      | none => .error .malformed
      | some d =>
        if base * n + d ≥ 1 <<< 64 then .error .outOfRange else digitsFrom base skipsUnderscores (base * n + d) s

/-- The base that a beginning stands for, and the digits after it. A beginning with a letter needs
at least one byte after it. -/
def baseOf (s : Text) : Nat × Text :=
  match s with
  | 0x30 :: x :: y :: rest =>
    let lower := Text.lowerByte x
    if lower == 'x' then (16, y :: rest)
    else if lower == 'b' then (2, y :: rest)
    else if lower == 'o' then (8, y :: rest)
    else (8, x :: y :: rest)
  | 0x30 :: rest => (8, rest)
  | _ => (10, s)

inductive Neighbour where
  | digit
  | underscore
  | other
  deriving DecidableEq

/-- Whether every underscore stands after a digit and before another one. -/
def underscoresFrom (isHex : Bool) : Neighbour → Text → Bool
  | last, [] => last != .underscore
  | last, b :: s =>
    if Text.isDigit b || (isHex && Text.isHex b) then underscoresFrom isHex .digit s
    else if b == '_' then last == .digit && underscoresFrom isHex .underscore s
    else last != .underscore && underscoresFrom isHex .other s

def withoutSign (s : Text) : Text :=
  match s with
  | 0x2D :: rest => rest
  | 0x2B :: rest => rest
  | _ => s

/-- Whether the underscores of a number stand between digits; a beginning that tells the base counts
as a digit. -/
def underscoresFit (s : Text) : Bool :=
  match withoutSign s with
  | 0x30 :: x :: rest =>
    let lower := Text.lowerByte x
    if lower == 'x' || lower == 'b' || lower == 'o' then underscoresFrom (lower == 'x') .digit rest
    else underscoresFrom false .other (0x30 :: x :: rest)
  | body => underscoresFrom false .other body

def parseUnsigned (base : Nat) (s : Text) : Except Fault Nat :=
  if s.isEmpty then .error .malformed
  else if base != 0 then digitsFrom base false 0 s
  else do
    let (base, digits) := baseOf s
    let n ← digitsFrom base true 0 digits
    if s.contains 0x5F && !underscoresFit s then throw .malformed
    return n

def fitsInt64 (n : Int) : Bool := -0x8000000000000000 ≤ n && n < 0x8000000000000000

/-- The number of 64 bits, with a sign, that is congruent to `n`. -/
def toInt64 (n : Int) : Int := n.bmod 0x10000000000000000

def parseIn (base : Nat) (s : Text) : Except Fault Int := do
  let n ← parseUnsigned base (withoutSign s)
  let n : Int := if s.head? == some 0x2D then -(n : Int) else n
  if fitsInt64 n then return n else throw .outOfRange

def parse (s : Text) : Except Fault Int := parseIn 0 s

def int64? (base : Nat) (s : Text) : Option Int := (parseIn base s).toOption

def uint64? (base : Nat) (s : Text) : Option Nat := (parseUnsigned base s).toOption

end ScriptBuild.Integer

namespace ScriptBuild

namespace Nearest

/-- The quotient of `num` and `den`, multiplied by a power of two, as a fraction. -/
def shifted (num den : Nat) (e : Int) : Nat × Nat := (num <<< e.toNat, den <<< (-e).toNat)

/-- The greatest power of two that is not above `num / den`. -/
def floorLog (num den : Nat) : Int :=
  let guess : Int := (num.log2 : Int) - den.log2
  let (n, d) := shifted num den (-guess)
  if n < d then guess - 1 else guess

def round (num den : Nat) : Nat :=
  let floor := num / den
  let rest := num % den
  if 2 * rest > den || (2 * rest == den && floor % 2 == 1) then floor + 1 else floor

def infinity : Nat := 0x7FF <<< 52

/-- The bits of the number nearest to `num / den`. The mantissa has 53 bits, or fewer if the exponent
would be below `-1074`; a mantissa that is rounded up to 54 bits carries into the exponent. -/
def bits (num den : Nat) : Nat :=
  if num == 0 then 0
  else
    let e := max (floorLog num den - 52) (-1074)
    let (n, d) := shifted num den (-e)
    min (((e + 1074).toNat <<< 52) + round n d) infinity

def ofFraction (num den : Nat) : Float := Float.ofBits (bits num den).toUInt64

end Nearest

/-- The number `digits · base ^ exponent`, with a sign. -/
structure Decimal where
  isNegative : Bool := false
  base : Nat := 10
  digits : Nat
  exponent : Int

namespace Decimal

def sign (s : Text) : Bool × Text := (s.head? == some 0x2D, Integer.withoutSign s)

/-- An exponent with its letter. It may be left out where the digits are decimal. -/
def exponent? (isHex : Bool) (s : Text) : Option Int :=
  match s with
  | [] => if isHex then none else some 0
  | b :: rest =>
    if Text.lowerByte b == (if isHex then 'p' else 'e' : UInt8) then
      let (isNegative, digits) := sign rest
      (Text.toNat? digits).map fun n => if isNegative then -(n : Int) else n
    else none

def splitPoint (isDigit : UInt8 → Bool) (s : Text) : Text × Text × Text :=
  let whole := s.takeWhile isDigit
  match s.dropWhile isDigit with
  | 0x2E :: rest => (whole, rest.takeWhile isDigit, rest.dropWhile isDigit)
  | rest => (whole, [], rest)

def ofDigits? (isHex isNegative : Bool) (s : Text) : Option Decimal :=
  let (whole, fraction, rest) := splitPoint (if isHex then Text.isHex else Text.isDigit) s
  let digits := whole ++ fraction
  if digits.isEmpty then none
  else
    (exponent? isHex rest).map fun e =>
      if isHex then { isNegative, base := 2, digits := Text.hexValue digits, exponent := e - 4 * fraction.length }
      else { isNegative, digits := Text.digitsValue digits, exponent := e - fraction.length }

def ofLiteral? (s : Text) : Option Decimal :=
  let (isNegative, body) := sign s
  let plain (s : Text) : Text := s.filter fun (b : UInt8) => b != '_'
  if s.contains 0x5F && !Integer.underscoresFit s then none
  else
    match body with
    | 0x30 :: x :: y :: rest =>
      if Text.lowerByte x == 'x' then ofDigits? true isNegative (plain (y :: rest))
      else ofDigits? false isNegative (plain body)
    | _ => ofDigits? false isNegative (plain body)

/-- The magnitude of the number is below `base ^ bound`. -/
def bound (d : Decimal) : Int :=
  (if d.base == 2 then d.digits.log2 + 1 else (Text.ofNat d.digits).length : Nat) + d.exponent

/-- Numbers with a bound beyond this are infinite, and numbers with one below its opposite are zero. -/
def limit (d : Decimal) : Int := if d.base == 2 then 1100 else 400

/-- The nearest floating point number; numbers that are too large become infinite. -/
def toFloat (d : Decimal) : Float :=
  let magnitude :=
    if d.digits == 0 || d.bound < -d.limit then 0.0
    else if d.bound > d.limit then 1.0 / 0.0
    else Nearest.ofFraction (d.digits * d.base.pow d.exponent.toNat) (d.base.pow (-d.exponent).toNat)
  if d.isNegative then -magnitude else magnitude

def words : List (Text × Float) :=
  [("inf", 1.0 / 0.0), ("+inf", 1.0 / 0.0), ("-inf", -1.0 / 0.0), ("infinity", 1.0 / 0.0),
    ("+infinity", 1.0 / 0.0), ("-infinity", -1.0 / 0.0), ("nan", 0.0 / 0.0)]

/-- Reads a floating point number. A finite number that is too large is out of range. -/
def parseFloat (s : Text) : Except Integer.Fault Float :=
  match words.lookup (s.map Text.lowerByte), ofLiteral? s with
  | some x, _ => .ok x
  | none, none => .error .malformed
  | none, some d => if d.toFloat.isInf then .error .outOfRange else .ok d.toFloat

end Decimal

end ScriptBuild
