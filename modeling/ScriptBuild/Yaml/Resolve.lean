import ScriptBuild.Number.Decimal
import ScriptBuild.Yaml.Problem

/-! Nodes of a document, and what a scalar stands for: by its tag, or by its looks if it has none. -/

namespace ScriptBuild

open Text

def Calendar.daysIn (year month : Nat) : Nat :=
  if month == 2 then (if year % 4 == 0 && (year % 100 != 0 || year % 400 == 0) then 29 else 28)
  else if [4, 6, 9, 11].contains month then 30
  else 31

namespace Yaml

inductive Zone where
  | universal
  /-- A zone that is given by its distance from universal time, which is nothing. -/
  | home
  /-- A zone that is given by its distance from universal time, in seconds to the east. -/
  | fixed (seconds : Int)
  deriving DecidableEq

structure Timestamp where
  year : Nat
  month : Nat
  day : Nat
  hour : Nat := 0
  minute : Nat := 0
  second : Nat := 0
  nanosecond : Nat := 0
  zone : Zone := .universal
  deriving DecidableEq

def shortNumber? (s : Text) : Option (Nat × Text) :=
  let digits := (s.take 2).takeWhile isDigit
  if digits.isEmpty then none else some (digitsValue digits, s.drop digits.length)

def date? (s : Text) : Option (Timestamp × Text) := do
  let digits := s.takeWhile isDigit
  if digits.length != 4 then none
  let year := digitsValue digits
  let rest ← dropPrefix? "-" (s.drop 4)
  let (month, rest) ← shortNumber? rest
  if month < 1 || month > 12 then none
  let rest ← dropPrefix? "-" rest
  let (day, rest) ← shortNumber? rest
  if day < 1 || day > Calendar.daysIn year month then none
  return ({ year, month, day }, rest)

def fraction (s : Text) : Nat × Text :=
  match s with
  | p :: rest =>
    let digits := rest.takeWhile isDigit
    let counted := digits.take 9
    if (p == '.' || p == ',') && !digits.isEmpty then
      (digitsValue counted * Nat.pow 10 (9 - counted.length), rest.drop digits.length)
    else (0, s)
  | [] => (0, [])

def clock? (t : Timestamp) (s : Text) : Option (Timestamp × Text) := do
  let (hour, rest) ← shortNumber? s
  if hour > 23 then none
  let rest ← dropPrefix? ":" rest
  let (minute, rest) ← shortNumber? rest
  if minute > 59 then none
  let rest ← dropPrefix? ":" rest
  let (second, rest) ← shortNumber? rest
  if second > 59 then none
  let (nanosecond, rest) := fraction rest
  return ({ t with hour, minute, second, nanosecond }, rest)

def zone? (s : Text) : Option Zone :=
  match s with
  | [0x5A] => some .universal
  | [sign, a, b, colon, c, d] =>
    let hours := digitsValue [a, b]
    let minutes := digitsValue [c, d]
    let seconds : Int := 3600 * hours + 60 * minutes
    if (sign == '+' || sign == '-') && colon == ':' && [a, b, c, d].all isDigit && hours ≤ 24 && minutes ≤ 60 then
      some (if seconds == 0 then .home else .fixed (if sign == '-' then -seconds else seconds))
    else none
  | _ => none

/-- A date alone, a date and a time separated by blanks, or a date, a `T` and a time with its zone. -/
def Timestamp.ofText? (s : Text) : Option Timestamp := do
  let (t, rest) ← date? s
  match rest with
  | [] => return t
  | b :: rest =>
    if b == 'T' || b == 't' then
      let (t, rest) ← clock? t rest
      return { t with zone := ← zone? rest }
    else if b == ' ' then
      let (t, rest) ← clock? t (rest.dropWhile (· == (32 : UInt8)))
      if rest.isEmpty then return t else none
    else none

namespace Timestamp

def padded (width n : Nat) : Text :=
  let digits := ofNat n
  List.replicate (width - digits.length) (48 : UInt8) ++ digits

def offsetText (seconds : Int) : Text :=
  let minutes := seconds.natAbs / 60
  (if seconds < 0 then "-" else "+") ++ padded 2 (minutes / 60) ++ padded 2 (minutes % 60)

def fractionText (nanosecond : Nat) : Text :=
  let digits := trimRightBytes (fun b => b == '0') (padded 9 nanosecond)
  onlyIf (!digits.isEmpty) ("." ++ digits)

/-- Date, time and zone, as in `2001-02-03 04:05:06.5 +0000 UTC`. -/
def text (t : Timestamp) : Text :=
  let zone : Text := match t.zone with
    | .fixed seconds => offsetText seconds ++ " " ++ offsetText seconds
    | _ => "+0000 UTC"
  padded 4 t.year ++ "-" ++ padded 2 t.month ++ "-" ++ padded 2 t.day ++ " " ++ padded 2 t.hour ++ ":" ++
    padded 2 t.minute ++ ":" ++ padded 2 t.second ++ fractionText t.nanosecond ++ " " ++ zone

def monthNames : List Text :=
  ["January", "February", "March", "April", "May", "June", "July", "August", "September", "October",
    "November", "December"]

def shown (t : Timestamp) : Text :=
  let zone : Text := match t.zone with
    | .universal => "time.UTC"
    | .home => "time.Local"
    | .fixed _ => "time.Location(\"\")"
  let numbers := [t.day, t.hour, t.minute, t.second, t.nanosecond].map ofNat
  let fields := ofNat t.year :: ("time." ++ monthNames.getD (t.month - 1) []) :: numbers ++ [zone]
  "time.Date(" ++ join ", " fields ++ ")"

end Timestamp

inductive Scalar where
  | null
  | bool (b : Bool)
  | int (n : Int)
  | float (x : Float)
  | time (t : Timestamp)
  | text (s : Text)

def Scalar.tag : Scalar → Text
  | .null => "!!null"
  | .bool _ => "!!bool"
  | .int _ => "!!int"
  | .float _ => "!!float"
  | .time _ => "!!timestamp"
  | .text _ => "!!str"

/-- A tag with the usual beginning is shortened. -/
def shortTag (tag : Text) : Text :=
  match dropPrefix? "tag:yaml.org,2002:" tag with
  | some rest => "!!" ++ rest
  | none => tag

def wordScalar? (s : Text) : Option Scalar :=
  if (["", "~", "null", "Null", "NULL"] : List Text).contains s then some .null
  else if (["true", "True", "TRUE"] : List Text).contains s then some (.bool true)
  else if (["false", "False", "FALSE"] : List Text).contains s then some (.bool false)
  else if ([".nan", ".NaN", ".NAN"] : List Text).contains s then some (.float (0.0 / 0.0))
  else if ([".inf", ".Inf", ".INF", "+.inf", "+.Inf", "+.INF"] : List Text).contains s then some (.float (1.0 / 0.0))
  else if (["-.inf", "-.Inf", "-.INF"] : List Text).contains s then some (.float (-1.0 / 0.0))
  else none

def floatScalar? (s : Text) : Option Scalar := (Decimal.parseFloat s).toOption.map .float

/-- A number without any base, underscores or words. -/
def decimalScalar? (s : Text) : Option Scalar :=
  (Decimal.ofDigits? false false (Integer.withoutSign s)).bind fun _ => floatScalar? s

def integerScalar? (base : Nat) (s : Text) : Option Scalar :=
  ((Integer.int64? base s).or ((Integer.uint64? base s).map fun n => (n : Int))).map .int

/-- Digits after `lead`, which may have a minus sign before it. -/
def markedScalar? (base : Nat) (lead s : Text) : Option Scalar :=
  match dropPrefix? lead s, dropPrefix? ("-" ++ lead) s with
  | some rest, _ => integerScalar? base rest
  | none, some rest => (Integer.int64? base ("-" ++ rest)).map .int
  | none, none => none

/-- A number with underscores left out. -/
def numberScalar? (s : Text) : Option Scalar :=
  let plain := s.filter fun (b : UInt8) => b != '_'
  (integerScalar? 0 plain).or ((decimalScalar? plain).or ((markedScalar? 2 "0b" plain).or (markedScalar? 8 "0o" plain)))

def implicitScalar (allowsTime : Bool) (s : Text) : Scalar :=
  match s with
  | [] => .null
  | b :: _ =>
    if b == '.' then ((wordScalar? s).or (floatScalar? s)).getD (.text s)
    else if b == '+' || b == '-' || isDigit b then
      match wordScalar? s with
      | some x => x
      | none =>
        match if allowsTime then Timestamp.ofText? s else none with
        | some t => .time t
        | none => (numberScalar? s).getD (.text s)
    else (wordScalar? s).getD (.text s)

/-- What a scalar with a tag stands for. Tags that are not known leave it as it is. -/
def resolve (tag value : Text) : Except Error Scalar :=
  let tag := shortTag tag
  if tag == "!!str" then .ok (.text value)
  else if (["", "!!bool", "!!int", "!!float", "!!null", "!!timestamp"] : List Text).contains tag then
    let x := implicitScalar (tag.isEmpty || tag == "!!timestamp") value
    if tag.isEmpty || x.tag == tag then .ok x
    else
      match tag == "!!float", x with
      | true, .int n =>
        if Integer.fitsInt64 n then .ok (.float (Float.ofInt n)) else .error (.undecodable x.tag value tag)
      | _, _ => .error (.undecodable x.tag value tag)
  else .ok (.text value)

inductive Node where
  | scalar (line : Nat) (tag value : Text)
  | sequence (line : Nat) (tag : Text) (items : List Node)
  | mapping (line : Nat) (tag : Text) (pairs : List (Node × Node))
  /-- Stands for the anchored node with a number; `place` tells aliases apart. -/
  | alias (line : Nat) (name : Text) (target place : Nat)

structure Document where
  root : Option Node := none
  anchored : List Node := []

namespace Node

def line : Node → Nat
  | .scalar line _ _ | .sequence line _ _ | .mapping line _ _ | .alias line _ _ _ => line

/-- The tag of a node that is no alias. -/
def tag : Node → Text
  | .scalar _ tag _ | .sequence _ tag _ | .mapping _ tag _ => tag
  | .alias _ _ _ _ => []

def value : Node → Text
  | .scalar _ _ value => value
  | .alias _ name _ _ => name
  | _ => []

def sameKey : Node → Node → Bool
  | .scalar _ _ a, .scalar _ _ b => a == b
  | .sequence _ _ _, .sequence _ _ _ => true
  | .mapping _ _ _, .mapping _ _ _ => true
  | .alias _ a _ _, .alias _ b _ _ => a == b
  | _, _ => false

def isMerge : Node → Bool
  | .scalar _ tag value => value == "<<" && tag == "!!merge"
  | _ => false

end Node

namespace Document

def target? (d : Document) (n : Nat) : Option Node := d.anchored[n]?

def tagOf (d : Document) : Node → Text
  | .alias _ _ n _ => ((d.target? n).map Node.tag).getD []
  | n => n.tag

end Document

end Yaml

end ScriptBuild
