/-! Texts are sequences of bytes. -/

namespace ScriptBuild

abbrev Text := List UInt8

namespace Text

def ofRune (n : Nat) : Text :=
  if n < 0x80 then [n.toUInt8]
  else if n < 0x800 then [(0xC0 + n / 64).toUInt8, (0x80 + n % 64).toUInt8]
  else if n < 0x10000 then
    [(0xE0 + n / 4096).toUInt8, (0x80 + n / 64 % 64).toUInt8, (0x80 + n % 64).toUInt8]
  else
    [(0xF0 + n / 262144).toUInt8, (0x80 + n / 4096 % 64).toUInt8, (0x80 + n / 64 % 64).toUInt8, (0x80 + n % 64).toUInt8]

def ofString (s : String) : Text :=
  s.toList.flatMap fun c => ofRune c.toNat

instance : Coe String Text := ⟨ofString⟩

instance : Coe Char UInt8 := ⟨Char.toUInt8⟩

def char (b : UInt8) : Char := Char.ofNat b.toNat

/-- Texts are ordered byte by byte, a proper beginning before what it begins. -/
def ble : Text → Text → Bool
  | [], _ => true
  | _ :: _, [] => false
  | a :: s, b :: t => if a < b then true else if b < a then false else ble s t

def sort (texts : List Text) : List Text := texts.mergeSort ble

def dropPrefix? : Text → Text → Option Text
  | [], s => some s
  | _ :: _, [] => none
  | a :: p, b :: s => if a == b then dropPrefix? p s else none

def dropPrefix (p s : Text) : Text := (dropPrefix? p s).getD s

def startsWith (s p : Text) : Bool := (dropPrefix? p s).isSome

def endsWith (s p : Text) : Bool := startsWith s.reverse p.reverse

def dropSuffix (p s : Text) : Text := (dropPrefix p.reverse s.reverse).reverse

/-- What stands before and after the first occurrence of `sep`. -/
def cut? (sep : Text) : Text → Option (Text × Text)
  | [] => if sep.isEmpty then some ([], []) else none
  | b :: s =>
    match dropPrefix? sep (b :: s) with
    | some rest => some ([], rest)
    | none => (cut? sep s).map fun (before, after) => (b :: before, after)

def cutLast? (sep s : Text) : Option (Text × Text) :=
  (cut? sep.reverse s.reverse).map fun (after, before) => (before.reverse, after.reverse)

/-- Like `cut?`; without an occurrence everything stands before. -/
def cut (sep s : Text) : Text × Text := (cut? sep s).getD (s, [])

def indexOf? (sep s : Text) : Option Nat := (cut? sep s).map (·.1.length)

def containsText (s sep : Text) : Bool := (cut? sep s).isSome

def split (sep : UInt8) : Text → List Text
  | [] => [[]]
  | b :: s =>
    if b == sep then [] :: split sep s
    else
      match split sep s with
      | [] => [[b]]
      | part :: parts => (b :: part) :: parts

def join (sep : Text) (parts : List Text) : Text := sep.intercalate parts

/-- One pass of replacement; `skip` counts the bytes of an occurrence still to be passed over. -/
def replaceFrom (old new : Text) : Nat → Text → Text
  | _, [] => []
  | skip + 1, _ :: s => replaceFrom old new skip s
  | 0, b :: s =>
    if startsWith (b :: s) old then new ++ replaceFrom old new (old.length - 1) s
    else b :: replaceFrom old new 0 s

/-- Every occurrence of the non-empty text `old`, from left to right, gives way to `new`. -/
def replaceAll (old new s : Text) : Text := replaceFrom old new 0 s

def replaceByte (old new : UInt8) (s : Text) : Text := s.map fun b => if b == old then new else b

def trimLeftBytes (p : UInt8 → Bool) (s : Text) : Text := s.dropWhile p

def trimRightBytes (p : UInt8 → Bool) (s : Text) : Text := (s.reverse.dropWhile p).reverse

def trimBytes (p : UInt8 → Bool) (s : Text) : Text := trimRightBytes p (trimLeftBytes p s)

def repeated (n : Nat) (s : Text) : Text := (List.replicate n s).flatten

def toBool? (s : Text) : Option Bool :=
  if [Text.ofString "1", "t", "T", "TRUE", "true", "True"].contains s then some true
  else if [Text.ofString "0", "f", "F", "FALSE", "false", "False"].contains s then some false
  else none

/-- The text if a condition holds, and no text otherwise. -/
def onlyIf (condition : Bool) (s : Text) : Text := if condition then s else []

def isDigit (b : UInt8) : Bool := '0' ≤ b && b ≤ '9'

def isUpper (b : UInt8) : Bool := 'A' ≤ b && b ≤ 'Z'

def isLower (b : UInt8) : Bool := 'a' ≤ b && b ≤ 'z'

def isAlpha (b : UInt8) : Bool := isUpper b || isLower b

/-- Letters `A` to `Z` in lower case; every other byte as it is. -/
def lowerByte (b : UInt8) : UInt8 := if isUpper b then b + 32 else b

def upperByte (b : UInt8) : UInt8 := if isLower b then b - 32 else b

def ofNat (n : Nat) : Text := (Nat.toDigits 10 n).map Char.toUInt8

def ofInt (n : Int) : Text := if n < 0 then '-' :: ofNat n.natAbs else ofNat n.natAbs

def ofHex (width n : Nat) : Text :=
  let digits := (Nat.toDigits 16 n).map Char.toUInt8
  List.replicate (width - digits.length) (48 : UInt8) ++ digits

def hexBytes (s : Text) : Text := s.flatMap fun b => ofHex 2 b.toNat

def isHex (b : UInt8) : Bool := isDigit b || ('a' ≤ lowerByte b && lowerByte b ≤ 'f')

def hexValue (s : Text) : Nat :=
  s.foldl (fun n b => 16 * n + if isDigit b then b.toNat - 48 else (lowerByte b).toNat - 87) 0

def digitsValue (s : Text) : Nat := s.foldl (fun n b => 10 * n + (b.toNat - 48)) 0

/-- The value of a text of one or more decimal digits. -/
def toNat? (s : Text) : Option Nat :=
  if s.isEmpty || !s.all isDigit then none else some (digitsValue s)

def padRight (width : Nat) (s : Text) : Text := s ++ List.replicate (width - s.length) (32 : UInt8)

theorem append_of_dropPrefix? {p s rest : Text} (found : dropPrefix? p s = some rest) : s = p ++ rest := by
  induction p generalizing s with
  | nil => exact Option.some.inj found
  | cons b p ih =>
    cases s with
    | nil => cases found
    | cons x s =>
      unfold dropPrefix? at found
      split at found
      · rename_i same
        rw [ih found, eq_of_beq same, List.cons_append]
      · cases found

theorem dropPrefix?_length {p s rest : Text} (h : dropPrefix? p s = some rest) : p.length + rest.length = s.length := by
  rw [append_of_dropPrefix? h, List.length_append]

theorem append_of_cut? {sep s before after : Text} (found : cut? sep s = some (before, after)) :
    s = before ++ (sep ++ after) := by
  induction s generalizing before with
  | nil =>
    unfold cut? at found
    split at found
    · rename_i empty
      cases found
      rw [List.isEmpty_iff.mp empty]
      rfl
    · cases found
  | cons b s ih =>
    unfold cut? at found
    split at found
    · rename_i rest dropped
      cases found
      rw [append_of_dropPrefix? dropped, List.nil_append]
    · obtain ⟨parts, inner, same⟩ := Option.map_eq_some_iff.mp found
      cases same
      exact congrArg (b :: ·) (ih inner)

theorem cut?_length {sep s before after : Text} (h : cut? sep s = some (before, after)) :
    before.length + sep.length + after.length = s.length := by
  rw [append_of_cut? h, List.length_append, List.length_append, Nat.add_assoc]

end Text

end ScriptBuild
