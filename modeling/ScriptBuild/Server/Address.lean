import ScriptBuild.Text.Basic

/-! Addresses to listen on: a host and a port with a colon between them. -/

namespace ScriptBuild

open Text

structure AddressError where
  message : Text

structure Address where
  host : Text
  port : Text

namespace Address

def refuse {α : Type} (address reason : Text) : Except AddressError α :=
  .error ⟨"listen tcp: address " ++ address ++ ": " ++ reason⟩

/-- Divides an address. A host in brackets may hold colons. -/
def split (s : Text) : Except AddressError Address := do
  let some (before, port) := cutLast? ":" s | refuse s "missing port in address"
  if s.head? == some 0x5B then
    let some (inside, after) := cut? "]" s | refuse s "missing ']' in address"
    if after.head? != some 0x3A then refuse s "missing port in address"
    if containsText (after.drop 1) ":" then refuse s "too many colons in address"
    if containsText (inside.drop 1 ++ after) "[" then refuse s "unexpected '[' in address"
    if containsText after "]" then refuse s "unexpected ']' in address"
    return ⟨inside.drop 1, port⟩
  if containsText before ":" then refuse s "too many colons in address"
  if containsText s "[" then refuse s "unexpected '[' in address"
  if containsText s "]" then refuse s "unexpected ']' in address"
  return ⟨before, port⟩

/-- The number that digits stand for, as a word of 32 bits, or the greatest such word if it becomes
too great; there is none where something else than a digit stands. -/
def portWord : UInt32 → Text → Option UInt32
  | n, [] => some n
  | n, b :: s =>
    if !isDigit b then none
    else
      let shifted := n * 10
      let next := shifted + (b - 48).toUInt32
      if n ≥ 0x40000000 || next < shifted then some 0xFFFFFFFF else portWord next s

/-- Ports are numbers of 16 bits, perhaps with a sign; no port is 0. -/
def portNumber (port : Text) : Except AddressError Nat :=
  let isNegative := port.head? == some 0x2D
  let digits := if isNegative || port.head? == some 0x2B then port.drop 1 else port
  match portWord 0 digits with
  | none => .error ⟨"listen tcp: lookup tcp/" ++ port ++ ": unknown port"⟩
  | some n => if n > 65535 || (isNegative && n > 0) then refuse port "invalid port" else .ok n.toNat

/-- The address to listen on; none is port 8080 on every host. -/
def ofText (s : Text) : Except AddressError Address := do
  let address ← split (if s.isEmpty then ":8080" else s)
  let _ ← portNumber address.port
  return address

end Address

end ScriptBuild
