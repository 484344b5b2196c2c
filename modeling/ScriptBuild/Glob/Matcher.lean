import ScriptBuild.Text.Rune

/-! Matchers for whole texts. -/

namespace ScriptBuild

open Text

inductive Matcher where
  | text (s : Text)
  | any
  | super
  | single
  | nothing
  | list (chars : List Nat) (isNegated : Bool)
  | range (lo hi : Nat) (isNegated : Bool)
  | atLeast (n : Nat)
  | atMost (n : Nat)
  | contains (needle : Text) (isNegated : Bool)
  | startsWith (p : Text)
  | endsWith (s : Text)
  | startsEnds (p s : Text)
  | startsAny (p : Text)
  | endsAny (s : Text)
  | row (parts : List Matcher) (length : Nat)
  | every (parts : List Matcher)
  | anyOf (parts : List Matcher)
  /-- A part and what stands before and after it, with the fixed lengths of these two. -/
  | around (part : Matcher) (left right : Option Matcher) (leftLength rightLength : Option Nat) (length : Option Nat)

namespace Matcher

def positions : Nat → List Rune → List (Nat × Nat)
  | _, [] => []
  | i, r :: rs => (i, r.code) :: positions (i + r.bytes.length) rs

def starts (s : Text) : List (Nat × Nat) := positions 0 s.runes

def codeLength (c : Nat) : Nat := (ofRune c).length

/-- Where a text can be cut between characters. -/
def cuts (s : Text) : List Nat := (starts s).map (·.1) ++ [s.length]

def endsFrom (offset : Nat) (s : Text) : List Nat :=
  (starts s).map fun (i, c) => offset + i + codeLength c

def beforeSlash (s : Text) : Text := s.takeWhile fun (b : UInt8) => b != '/'

def hasSlash (s : Text) : Bool := s.any fun (b : UInt8) => b == '/'

/-- The only character of a text, if there is at most one; the empty text has an unreadable one. -/
def onlyRune? (s : Text) : Option Nat :=
  match s.runes with
  | [] => some 0xFFFD
  | [r] => some r.code
  | _ => none

def isSlash (c : Nat) : Bool := c == 47

/-- The fixed length in characters. Of alternatives, leading ones without a fixed length are
passed over. -/
def length? : Matcher → Option Nat
  | .text s => some s.runes.length
  | .single | .list _ _ | .range _ _ _ => some 1
  | .nothing => some 0
  | .row _ n => some n
  | .every parts => if parts.isEmpty then some 0 else none
  | .anyOf parts => lengths? none parts
  | .around _ _ _ _ _ n => n
  | _ => none
where
  lengths? (known : Option Nat) : List Matcher → Option Nat
    | [] => known
    | m :: ms =>
      match known, length? m with
      | none, n => lengths? n ms
      | some _, none => none
      | some k, some n => if k == n then lengths? (some k) ms else none

/-- The byte position of the `n`-th character, or of the last one if there are fewer, and how
many there are up to it. -/
def nthStart (n : Nat) (s : Text) : Nat × Nat :=
  let here := (starts s).take (if n == 0 then s.length else n)
  ((here.getLast?.map (·.1)).getD 0, here.length)

def firstIndex (p : Nat → Bool) (s : Text) : Option (Nat × List Nat) :=
  ((starts s).find? fun (_, c) => p c).map fun (i, c) => (i, [codeLength c])

def merge (xs ys : List Nat) : List Nat :=
  (xs ++ ys.filter fun y => !xs.contains y).mergeSort (· ≤ ·)

/-- All ends of occurrences of `s` counted from the last one backwards, the shortest first. -/
def suffixEnds (s : Text) : Nat → Text → List Nat
  | 0, _ => []
  | fuel + 1, t =>
    match cutLast? s t with
    | none => []
    | some (before, _) => suffixEnds s fuel before ++ [before.length + s.length]

def search (index : Text → Option (Nat × List Nat)) (left right : Text → Bool) (s : Text) (limit : Nat) :
    Nat → Nat → Bool
  | 0, _ => false
  | fuel + 1, offset =>
    if limit ≤ offset then false
    else
      match index ((s.take limit).drop offset) with
      | none => false
      | some (i, segments) =>
        if left (s.take (offset + i)) && segments.reverse.any (fun n => right (s.drop (offset + i + n))) then true
        else
          let step := ((runes (s.drop (offset + i))).head?.map (·.bytes.length)).getD 0
          search index left right s limit fuel (offset + i + step)

mutual

/-- Where a matcher first occurs, and the lengths it can have there. -/
def index : Matcher → Text → Option (Nat × List Nat)
  | .text t, s => (indexOf? t s).map fun i => (i, [t.length])
  | .any, s => some (0, cuts (beforeSlash s))
  | .super, s => some (0, cuts s)
  | .single, s => firstIndex (fun c => !isSlash c) s
  | .nothing, _ => some (0, [0])
  | .list chars isNegated, s => firstIndex (fun c => chars.contains c != isNegated) s
  | .range lo hi isNegated, s => firstIndex (fun c => (lo ≤ c && c ≤ hi) != isNegated) s
  | .atLeast n, s =>
    if s.length + 1 ≤ n then none
    else
      match (endsFrom 0 s).drop (n - 1) with
      | [] => none
      | ends => some (0, ends)
  | .atMost n, s => some (0, 0 :: (endsFrom 0 s).take n)
  | .contains needle isNegated, s =>
    match indexOf? needle s with
    | some i =>
      if isNegated then some (0, cuts (s.take i))
      else
        let offset := i + needle.length
        some (0, (cuts (s.drop offset)).map (offset + ·))
    | none => if isNegated then some (0, cuts s) else none
  | .startsWith p, s =>
    (indexOf? p s).map fun i => (i, p.length :: endsFrom p.length (s.drop (i + p.length)))
  | .startsAny p, s =>
    (indexOf? p s).map fun i =>
      (i, p.length :: endsFrom p.length (beforeSlash (s.drop (i + p.length))))
  | .endsWith t, s => (indexOf? t s).map fun i => (0, [i + t.length])
  | .endsAny t, s =>
    (indexOf? t s).map fun i =>
      let start := i - (beforeSlash (s.take i).reverse).length
      (start, [i + t.length - start])
  | .startsEnds p t, s =>
    match indexOf? p s with
    | none => none
    | some i =>
      if t.isEmpty then some (i, [s.length - i])
      else
        match suffixEnds t (s.length + 1) (s.drop i) with
        | [] => none
        | ends => some (i, ends)
  | .row parts n, s =>
    ((starts s).find? fun (i, _) => n ≤ s.length - i && rowMatch parts (s.drop i)).map
      fun (i, _) => (i, [n])
  | .every parts, s => everyIndex parts s 0 0 none
  | .anyOf parts, s => anyIndex parts s none
  | .around _ _ _ _ _ _, _ => none

/-- The parts of a row one after another, each taking as many bytes as lead to its last character. -/
def rowMatch : List Matcher → Text → Bool
  | [], _ => true
  | m :: ms, s =>
    let n := (length? m).getD 0
    let (last, count) := nthStart n s
    n ≤ count && isMatch m (s.take (last + 1)) && rowMatch ms (s.drop (last + 1))

def everyIndex : List Matcher → Text → Nat → Nat → Option (List Nat) → Option (Nat × List Nat)
  | [], _, place, _, current => some (place, current.getD [])
  | m :: ms, s, place, offset, current =>
    match index m (s.drop place) with
    | none => none
    | some (i, segments) =>
      let here := i + offset
      match current with
      | none => everyIndex ms s here (offset + i) (some segments)
      | some lengths =>
        let next := lengths.flatMap fun (n : Nat) =>
          segments.filter fun (k : Nat) => ((n : Int) + ((place : Int) - here)) == k
        if next.isEmpty then none else everyIndex ms s here (offset + i) (some next)

def anyIndex : List Matcher → Text → Option (Nat × List Nat) → Option (Nat × List Nat)
  | [], _, best => best
  | m :: ms, s, best =>
    match index m s, best with
    | none, best => anyIndex ms s best
    | some found, none => anyIndex ms s (some found)
    | some (i, segments), some (j, lengths) =>
      if i < j then anyIndex ms s (some (i, segments))
      else if j < i then anyIndex ms s (some (j, lengths))
      else anyIndex ms s (some (j, merge lengths segments))

def isMatch : Matcher → Text → Bool
  | .text t, s => t == s
  | .any, s => !hasSlash s
  | .super, _ => true
  | .single, s => (onlyRune? s).any fun c => !isSlash c
  | .nothing, s => s.isEmpty
  | .list chars isNegated, s => (onlyRune? s).any fun c => chars.contains c != isNegated
  | .range lo hi isNegated, s => (onlyRune? s).any fun c => (lo ≤ c && c ≤ hi) != isNegated
  | .atLeast n, s => !s.isEmpty && n ≤ s.runes.length
  | .atMost n, s => s.runes.length ≤ n
  | .contains needle isNegated, s => containsText s needle != isNegated
  | .startsWith p, s => Text.startsWith s p
  | .endsWith t, s => Text.endsWith s t
  | .startsEnds p t, s => Text.startsWith s p && Text.endsWith s t
  | .startsAny p, s => (dropPrefix? p s).any fun rest => !hasSlash rest
  | .endsAny t, s => Text.endsWith s t && !hasSlash (s.take (s.length - t.length))
  | .row parts n, s => s.runes.length == n && rowMatch parts s
  | .every parts, s => everyMatch parts s
  | .anyOf parts, s => anyMatch parts s
  | .around part left right leftLength rightLength n, s =>
    if n.any (s.length < ·) then false
    else
      search (index part) (sideMatch left) (sideMatch right) s (s.length - rightLength.getD 0) (s.length + 1) (leftLength.getD 0)

def sideMatch : Option Matcher → Text → Bool
  | none, s => s.isEmpty
  | some m, s => isMatch m s

def everyMatch : List Matcher → Text → Bool
  | [], _ => true
  | m :: ms, s => isMatch m s && everyMatch ms s

def anyMatch : List Matcher → Text → Bool
  | [], _ => false
  | m :: ms, s => isMatch m s || anyMatch ms s

end

end Matcher

end ScriptBuild
