import ScriptBuild.Number.Decimal

/-! Decimal text of floating point numbers. -/

namespace ScriptBuild

/-- The magnitude `mantissa · 2 ^ exponent` of a finite number. -/
structure Binary where
  mantissa : Nat
  exponent : Int

namespace Binary

def ofFloat (x : Float) : Binary :=
  let bits := x.toBits.toNat
  let fraction := bits % (1 <<< 52)
  let biased : Nat := (bits >>> 52) % (1 <<< 11)
  if biased == 0 then ⟨fraction, -1074⟩ else ⟨(1 <<< 52) + fraction, (biased : Int) - 1075⟩

def scaled (a : Nat) (e s : Int) : Nat × Nat :=
  ((a <<< e.toNat) * Nat.pow 10 (-s).toNat, Nat.pow 10 s.toNat <<< (-e).toNat)

/-- The least power of ten that is greater than the number. -/
def magnitude (b : Binary) : Int :=
  let (num, den) := scaled b.mantissa b.exponent 0
  if num ≥ den then (Text.ofNat (num / den)).length else 1 - ((Text.ofNat ((den - 1) / num)).length : Int)

/-- The numbers that are rounded to a number lie between two bounds, in quarters of its last binary
place. -/
def bounds (b : Binary) : Nat × Nat :=
  let below := if b.mantissa == 1 <<< 52 && b.exponent > -1074 then 1 else 2
  (4 * b.mantissa - below, 4 * b.mantissa + 2)

/-- Whether `c · 10 ^ s` is rounded to the number. The bounds belong to it if the mantissa is even. -/
def rounds (b : Binary) (c : Nat) (s : Int) : Bool :=
  let (low, high) := b.bounds
  let num := (c * Nat.pow 10 s.toNat) <<< (2 - b.exponent).toNat
  let den := Nat.pow 10 (-s).toNat <<< (b.exponent - 2).toNat
  if b.mantissa % 2 == 0 then low * den ≤ num && num ≤ high * den else low * den < num && num < high * den

def nearest? (b : Binary) (s : Int) : Option Nat :=
  let (num, den) := scaled b.mantissa b.exponent s
  let floor := num / den
  match b.rounds floor s, b.rounds (floor + 1) s with
  | true, true => some (Nearest.round num den)
  | true, false => some floor
  | false, true => some (floor + 1)
  | false, false => none

/-- The fewest digits, and the power of ten that they count. Tries `count` digits and more. -/
def search (b : Binary) (magnitude : Int) : Nat → Nat → Nat × Int
  | 0, count => ((b.nearest? (magnitude - count)).getD 0, magnitude - count)
  | fuel + 1, count =>
    match b.nearest? (magnitude - count) with
    | some digits => (digits, magnitude - count)
    | none => b.search magnitude fuel (count + 1)

def dropZeros : Nat → Nat × Int → Nat × Int
  | 0, d => d
  | fuel + 1, (digits, s) => if digits != 0 && digits % 10 == 0 then dropZeros fuel (digits / 10, s + 1) else (digits, s)

def shortest (b : Binary) : Text × Int :=
  if b.mantissa == 0 then ("0", 1)
  else
    let (digits, s) := dropZeros 20 (b.search b.magnitude 17 1)
    let text := Text.ofNat digits
    (text, s + text.length)

end Binary

namespace FloatText

def special? (x : Float) : Option Text :=
  if x.isNaN then some "NaN"
  else if x.isInf then some (if x > 0 then "+Inf" else "-Inf")
  else none

def isNegative (x : Float) : Bool := x.toBits.toNat ≥ 1 <<< 63

def zeros (n : Nat) : Text := List.replicate n (48 : UInt8)

def positional (digits : Text) (point : Int) : Text :=
  if point ≤ 0 then "0." ++ zeros (-point).toNat ++ digits
  else if point ≥ digits.length then digits ++ zeros (point.toNat - digits.length)
  else digits.take point.toNat ++ "." ++ digits.drop point.toNat

/-- Digits with a point after the first one, and an exponent of at least two digits. -/
def scientific (digits : Text) (point : Int) : Text :=
  let e := point - 1
  let magnitude := Text.ofNat e.natAbs
  digits.take 1 ++ (if digits.length > 1 then "." ++ digits.drop 1 else []) ++
    (if e < 0 then "e-" else "e+") ++ zeros (2 - magnitude.length) ++ magnitude

/-- A number with a sign, where `magnitude` is the text of its magnitude unless it is special. -/
def signed (x : Float) (magnitude : Binary → Text) : Text :=
  match special? x with
  | some s => s
  | none => if isNegative x then "-" ++ magnitude (.ofFloat x) else magnitude (.ofFloat x)

/-- The shortest text; large and small numbers are written with an exponent. -/
def general (x : Float) : Text :=
  signed x fun b =>
    let (digits, point) := b.shortest
    if point < -3 || point > 6 then scientific digits point else positional digits point

def plain (x : Float) : Text := signed x fun b => positional b.shortest.1 b.shortest.2

/-- With `places` digits after the point, halves to the even neighbour. -/
def fixed (places : Nat) (x : Float) : Text :=
  signed x fun b =>
    let (num, den) := Binary.scaled b.mantissa b.exponent (-(places : Int))
    let digits := Text.ofNat (Nearest.round num den)
    let digits := zeros (places + 1 - digits.length) ++ digits
    let whole := digits.take (digits.length - places)
    if places == 0 then whole else whole ++ "." ++ digits.drop (digits.length - places)

end FloatText

end ScriptBuild
