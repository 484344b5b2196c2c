import ScriptBuild.Text.Basic

/-! Reading a text as UTF-8. -/

namespace ScriptBuild

/-- A code point read from a text, with the bytes that hold it. -/
structure Rune where
  code : Nat
  bytes : Text
  valid : Bool

namespace Rune

def replacement : Nat := 0xFFFD

def isTail (b : UInt8) : Bool := 0x80 ≤ b && b ≤ 0xBF

def tailBits (b : UInt8) : Nat := b.toNat % 64

/-- The range of the second byte after first byte `b` of a code point of three or four bytes. -/
def secondRange (b : UInt8) : UInt8 × UInt8 :=
  if b == 0xE0 then (0xA0, 0xBF)
  else if b == 0xED then (0x80, 0x9F)
  else if b == 0xF0 then (0x90, 0xBF)
  else if b == 0xF4 then (0x80, 0x8F)
  else (0x80, 0xBF)

def invalid (b : UInt8) : Rune := ⟨replacement, [b], false⟩

/-- The code point that a text with first byte `b` begins with. -/
def read (b : UInt8) (rest : Text) : Rune :=
  if b < 0x80 then ⟨b.toNat, [b], true⟩
  else if 0xC2 ≤ b && b ≤ 0xDF then
    match rest with
    | c :: _ => if isTail c then ⟨(b.toNat % 32) * 64 + tailBits c, [b, c], true⟩ else invalid b
    | [] => invalid b
  else if 0xE0 ≤ b && b ≤ 0xEF then
    match rest with
    | c :: d :: _ =>
      let range := secondRange b
      if range.1 ≤ c && c ≤ range.2 && isTail d then
        ⟨(b.toNat % 16) * 4096 + tailBits c * 64 + tailBits d, [b, c, d], true⟩
      else invalid b
    | _ => invalid b
  else if 0xF0 ≤ b && b ≤ 0xF4 then
    match rest with
    | c :: d :: e :: _ =>
      let range := secondRange b
      if range.1 ≤ c && c ≤ range.2 && isTail d && isTail e then
        ⟨(b.toNat % 8) * 262144 + tailBits c * 4096 + tailBits d * 64 + tailBits e, [b, c, d, e], true⟩
      else invalid b
    | _ => invalid b
  else invalid b

/-- Reads `s` from left to right; `skip` counts the bytes that belong to the code point read last. -/
def readAll : Nat → Text → List Rune
  | _, [] => []
  | skip + 1, _ :: s => readAll skip s
  | 0, b :: s =>
    let rune := read b s
    rune :: readAll (rune.bytes.length - 1) s

end Rune

namespace Text

def runes (s : Text) : List Rune := Rune.readAll 0 s

def isUtf8 (s : Text) : Bool := s.runes.all (·.valid)

/-- The string with these bytes; bytes that are not UTF-8 are read as replacement characters. -/
def toString (s : Text) : String := String.ofList (s.runes.map fun r => Char.ofNat r.code)

end Text

namespace Text

def blankRunes : List Nat :=
  [9, 10, 11, 12, 13, 0x20, 0x85, 0xA0, 0x1680, 0x2000, 0x2001, 0x2002, 0x2003, 0x2004, 0x2005,
    0x2006, 0x2007, 0x2008, 0x2009, 0x200A, 0x2028, 0x2029, 0x202F, 0x205F, 0x3000]

def blanks : List Text := blankRunes.map ofRune

end Text

def Rune.isBlank (code : Nat) : Bool := Text.blankRunes.contains code

namespace Text

def isBlankByte (b : UInt8) : Bool := Rune.isBlank b.toNat

def dropBlank? (kinds : List Text) (s : Text) : Option Text := kinds.findSome? (dropPrefix? · s)

/-- Removes members of `kinds` from the beginning; `fuel` bounds their number. -/
def dropBlanks (kinds : List Text) : Nat → Text → Text
  | 0, s => s
  | fuel + 1, s =>
    match dropBlank? kinds s with
    | some rest => dropBlanks kinds fuel rest
    | none => s

def trimLeft (s : Text) : Text := dropBlanks blanks s.length s

def trimRight (s : Text) : Text :=
  (dropBlanks (blanks.map List.reverse) s.length s.reverse).reverse

def trim (s : Text) : Text := trimRight (trimLeft s)

def wordsOf : List Rune → Text → List Text
  | [], word => if word.isEmpty then [] else [word]
  | r :: rs, word =>
    if Rune.isBlank r.code then
      if word.isEmpty then wordsOf rs [] else word :: wordsOf rs []
    else wordsOf rs (word ++ r.bytes)

/-- The maximal parts without blanks. -/
def words (s : Text) : List Text := wordsOf s.runes []

end Text

end ScriptBuild
