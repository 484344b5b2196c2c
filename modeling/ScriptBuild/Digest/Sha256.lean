import ScriptBuild.Text.Basic

/-! The SHA-256 digest of a text. -/

namespace ScriptBuild

namespace Sha256

def initial : List UInt32 :=
  [0x6a09e667, 0xbb67ae85, 0x3c6ef372, 0xa54ff53a, 0x510e527f, 0x9b05688c, 0x1f83d9ab, 0x5be0cd19]

def roundConstants : List UInt32 :=
  [0x428a2f98, 0x71374491, 0xb5c0fbcf, 0xe9b5dba5, 0x3956c25b, 0x59f111f1,
    0x923f82a4, 0xab1c5ed5, 0xd807aa98, 0x12835b01, 0x243185be, 0x550c7dc3,
    0x72be5d74, 0x80deb1fe, 0x9bdc06a7, 0xc19bf174, 0xe49b69c1, 0xefbe4786,
    0x0fc19dc6, 0x240ca1cc, 0x2de92c6f, 0x4a7484aa, 0x5cb0a9dc, 0x76f988da,
    0x983e5152, 0xa831c66d, 0xb00327c8, 0xbf597fc7, 0xc6e00bf3, 0xd5a79147,
    0x06ca6351, 0x14292967, 0x27b70a85, 0x2e1b2138, 0x4d2c6dfc, 0x53380d13,
    0x650a7354, 0x766a0abb, 0x81c2c92e, 0x92722c85, 0xa2bfe8a1, 0xa81a664b,
    0xc24b8b70, 0xc76c51a3, 0xd192e819, 0xd6990624, 0xf40e3585, 0x106aa070,
    0x19a4c116, 0x1e376c08, 0x2748774c, 0x34b0bcb5, 0x391c0cb3, 0x4ed8aa4a,
    0x5b9cca4f, 0x682e6ff3, 0x748f82ee, 0x78a5636f, 0x84c87814, 0x8cc70208,
    0x90befffa, 0xa4506ceb, 0xbef9a3f7, 0xc67178f2]

def rotate (x : UInt32) (n : UInt32) : UInt32 := (x >>> n) ||| (x <<< (32 - n))

/-- The message with the bit 1, zeros up to a whole number of blocks, and its length in bits. -/
def padded (s : Text) : Text :=
  let zeros := (119 - s.length % 64) % 64
  let bits := 8 * s.length
  s ++ [0x80] ++ List.replicate zeros 0 ++
    [56, 48, 40, 32, 24, 16, 8, 0].map fun shift : Nat => Nat.toUInt8 ((bits >>> shift) % 256)

def words : Text → List UInt32
  | a :: b :: c :: d :: rest =>
    ((a.toUInt32 <<< 24) ||| (b.toUInt32 <<< 16) ||| (c.toUInt32 <<< 8) ||| d.toUInt32) :: words rest
  | _ => []

/-- The next word of the schedule from the sixteen before it, the last one first. -/
def scheduleWord (last : List UInt32) : UInt32 :=
  let w2 := last.getD 1 0
  let w7 := last.getD 6 0
  let w15 := last.getD 14 0
  let w16 := last.getD 15 0
  let s0 := rotate w15 7 ^^^ rotate w15 18 ^^^ (w15 >>> 3)
  let s1 := rotate w2 17 ^^^ rotate w2 19 ^^^ (w2 >>> 10)
  w16 + s0 + w7 + s1

def extendSchedule : Nat → List UInt32 → List UInt32
  | 0, last => last
  | n + 1, last => extendSchedule n (scheduleWord last :: last)

def schedule (block : List UInt32) : List UInt32 := (extendSchedule 48 block.reverse).reverse

structure State where
  a : UInt32
  b : UInt32
  c : UInt32
  d : UInt32
  e : UInt32
  f : UInt32
  g : UInt32
  h : UInt32

def State.step (s : State) (k w : UInt32) : State :=
  let s1 := rotate s.e 6 ^^^ rotate s.e 11 ^^^ rotate s.e 25
  let choice := (s.e &&& s.f) ^^^ (~~~s.e &&& s.g)
  let t1 := s.h + s1 + choice + k + w
  let s0 := rotate s.a 2 ^^^ rotate s.a 13 ^^^ rotate s.a 22
  let majority := (s.a &&& s.b) ^^^ (s.a &&& s.c) ^^^ (s.b &&& s.c)
  ⟨t1 + (s0 + majority), s.a, s.b, s.c, s.d + t1, s.e, s.f, s.g⟩

def State.toList (s : State) : List UInt32 := [s.a, s.b, s.c, s.d, s.e, s.f, s.g, s.h]

def State.ofList : List UInt32 → State
  | [a, b, c, d, e, f, g, h] => ⟨a, b, c, d, e, f, g, h⟩
  | _ => ⟨0, 0, 0, 0, 0, 0, 0, 0⟩

def compress (digest block : List UInt32) : List UInt32 :=
  let rounds := roundConstants.zip (schedule block)
  let s := rounds.foldl (fun s (k, w) => s.step k w) (State.ofList digest)
  List.zipWith (· + ·) digest s.toList

/-- Folds the blocks of sixteen words into the digest; `fuel` bounds their number. -/
def compressAll : Nat → List UInt32 → List UInt32 → List UInt32
  | 0, digest, _ => digest
  | fuel + 1, digest, ws =>
    if ws.isEmpty then digest else compressAll fuel (compress digest (ws.take 16)) (ws.drop 16)

end Sha256

def sha256 (s : Text) : Text :=
  let ws := Sha256.words (Sha256.padded s)
  (Sha256.compressAll (ws.length / 16) Sha256.initial ws).flatMap fun w => Text.ofHex 8 w.toNat

end ScriptBuild
