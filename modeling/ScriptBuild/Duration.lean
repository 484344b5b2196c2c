import ScriptBuild.Text.Basic

/-! Durations in nanoseconds and their text, as in `1h2m3.5s`, `15ms` or `250ns`. -/

namespace ScriptBuild

open Text

structure Duration where
  nanoseconds : Int
  deriving DecidableEq

namespace Duration

/-- `n` divided by ten to the power of `places`, without zeros at its end. -/
def decimal (places n : Nat) : Text :=
  let whole := ofNat (n / Nat.pow 10 places)
  let digits := ofNat (n % Nat.pow 10 places)
  let fraction := List.replicate (places - digits.length) (48 : UInt8) ++ digits
  let fraction := trimRightBytes (fun b => b == '0') fraction
  if places == 0 || fraction.isEmpty then whole else whole ++ "." ++ fraction

def magnitude (n : Nat) : Text :=
  if n == 0 then "0s"
  else if n < 1000 then decimal 0 n ++ "ns"
  else if n < 1000000 then decimal 3 n ++ "µs"
  else if n < 1000000000 then decimal 6 n ++ "ms"
  else
    let seconds := n / 1000000000
    let minutes := seconds / 60
    let hours := minutes / 60
    let rest := decimal 9 (n % 60000000000) ++ "s"
    if minutes == 0 then rest
    else if hours == 0 then ofNat minutes ++ "m" ++ rest
    else ofNat hours ++ "h" ++ ofNat (minutes % 60) ++ "m" ++ rest

def text (d : Duration) : Text :=
  if d.nanoseconds < 0 then "-" ++ magnitude d.nanoseconds.natAbs else magnitude d.nanoseconds.natAbs

/-- Rounded to whole milliseconds, halves away from zero, within 64 bits. -/
def toMilliseconds (d : Duration) : Duration :=
  let rounded : Nat := (d.nanoseconds.natAbs + 500000) / 1000000 * 1000000
  ⟨if d.nanoseconds < 0 then max (-(rounded : Int)) (-0x8000000000000000)
    else min (rounded : Int) 0x7FFFFFFFFFFFFFFF⟩

def units : List (Text × Nat) :=
  [("ns", 1), ("us", 1000), ("µs", 1000), ("μs", 1000), ("ms", 1000000), ("s", 1000000000),
    ("m", 60000000000), ("h", 3600000000000)]

end Duration

inductive DurationError where
  | invalid (s : Text)
  | noUnit (s : Text)
  | unknownUnit (name s : Text)

namespace DurationError

def quoteByte (b : UInt8) : Text :=
  if b < 32 || b ≥ 0x80 then "\\x" ++ ofHex 2 b.toNat
  else if b == '"' || b == '\\' then ['\\', b]
  else [b]

/-- A text in quotes; bytes that are not printable ASCII are written as their codes. -/
def quote (s : Text) : Text := "\"" ++ s.flatMap quoteByte ++ "\""

def message : DurationError → Text
  | .invalid s => "time: invalid duration " ++ quote s
  | .noUnit s => "time: missing unit in duration " ++ quote s
  | .unknownUnit name s => "time: unknown unit " ++ quote name ++ " in duration " ++ quote s

def brief (e : DurationError) : Text :=
  match e with
  | .unknownUnit _ _ => "time: unknown unit"
  | _ => ((cutLast? " " e.message).map (·.1)).getD e.message

end DurationError

namespace Duration

def isNumeric (b : UInt8) : Bool := b == '.' || isDigit b

/-- The value of the digits that keep it within 63 bits, and ten to the number of these digits. -/
def leadingFraction : Text → Nat → Float → Nat × Float
  | [], value, scale => (value, scale)
  | b :: s, value, scale =>
    let next := 10 * value + (b.toNat - 48)
    if next > 1 <<< 63 then (value, scale) else leadingFraction s next (scale * 10)

def readPart (whole s : Text) : Except DurationError (Nat × Text) := do
  if !(s.head?.map isNumeric).getD false then throw (.invalid whole)
  let digits := s.takeWhile isDigit
  let rest := s.dropWhile isDigit
  let value := digitsValue digits
  if value > 1 <<< 63 then throw (.invalid whole)
  let hasPoint := rest.head? == some 0x2E
  let fraction := if hasPoint then rest.tail.takeWhile isDigit else []
  let rest := if hasPoint then rest.tail.dropWhile isDigit else rest
  if digits.isEmpty && fraction.isEmpty then throw (.invalid whole)
  let name := rest.takeWhile fun b => !isNumeric b
  if name.isEmpty then throw (.noUnit whole)
  let some unit := units.lookup name | throw (.unknownUnit name whole)
  if value > (1 <<< 63) / unit then throw (.invalid whole)
  let (f, scale) := leadingFraction fraction 0 1
  let extra := if f > 0 then (Float.ofNat f * (Float.ofNat unit / scale)).toUInt64.toNat else 0
  if value * unit + extra > 1 <<< 63 then throw (.invalid whole)
  return (value * unit + extra, rest.drop name.length)

/-- The sum of the parts of a duration, as a word of 64 bits. -/
def sumParts (whole : Text) : Nat → Text → Nat → Except DurationError Nat
  | _, [], total => .ok total
  | 0, _, total => .ok total
  | fuel + 1, s, total => do
    let (part, rest) ← readPart whole s
    let total := (total + part) % (1 <<< 64)
    if total > 1 <<< 63 then throw (.invalid whole)
    sumParts whole fuel rest total

/-- Reads a duration such as `1h30m`, `1.5s` or `-250ms`. -/
def ofText (s : Text) : Except DurationError Duration := do
  let isNegative := s.head? == some 0x2D
  let body := if isNegative || s.head? == some 0x2B then s.tail else s
  if body == "0" then return ⟨0⟩
  if body.isEmpty then throw (.invalid s)
  let total ← sumParts s body.length body 0
  if isNegative then return ⟨-(total : Int)⟩
  if total ≥ 1 <<< 63 then throw (.invalid s)
  return ⟨total⟩

end Duration

end ScriptBuild
