import ScriptBuild.Glob.Matcher

/-! Matchers for glob patterns. -/

namespace ScriptBuild

structure GlobError where
  message : Text

inductive GlobNode where
  | text (s : Text)
  | any
  | super
  | single
  | nothing
  | list (chars : List Nat) (isNegated : Bool)
  | range (lo hi : Nat) (isNegated : Bool)
  | pattern (children : List GlobNode)
  | anyOf (children : List GlobNode)
  deriving BEq

namespace GlobNode

mutual

def size : GlobNode → Nat
  | .pattern children | .anyOf children => sizes children + 1
  | _ => 1

def sizes : List GlobNode → Nat
  | [] => 0
  | n :: ns => n.size + sizes ns

end

def code (c : Char) : Nat := c.toNat

/-- The end of the input, which a zero byte stands for as well. -/
def isEnd (r : Rune) : Bool := r.code == 0

/-- A character that a pattern cannot hold. -/
def isUnreadable (r : Rune) : Bool := r.code == 0xFFFD

def unreadable {α : Type} : Except GlobError α := .error ⟨"could not read rune"⟩

def next : List Rune → Except GlobError (Rune × List Rune)
  | [] => .error ⟨"unexpected end of input"⟩
  | r :: rs => if isUnreadable r || isEnd r then .error ⟨"unexpected end of input"⟩ else .ok (r, rs)

/-- Characters up to one of `breakers`, a backslash taking the next one as it is, and the rest. -/
def readText (breakers : List Nat) : Bool → List Rune → List Nat × List Rune
  | _, [] => ([], [])
  | escaped, r :: rs =>
    if isUnreadable r then ([], r :: rs)
    else if isEnd r then ([], rs)
    else if !escaped && r.code == code '\\' then readText breakers true rs
    else if !escaped && breakers.contains r.code then ([], r :: rs)
    else
      let (codes, rest) := readText breakers false rs
      (r.code :: codes, rest)

def closeRange (rs : List Rune) : Except GlobError (List Rune) := do
  let (r, rest) ← next rs
  if r.code == code ']' then .ok rest else .error ⟨"expected close range character"⟩

def readClass (isNegated : Bool) (rs : List Rune) : Except GlobError (GlobNode × List Rune) := do
  let (lo, rest) ← next rs
  if (rest.head?.map (·.code)) == some (code '-') then
    let (hi, rest) ← next (rest.drop 1)
    let rest ← closeRange rest
    if hi.code < lo.code then
      .error ⟨"hi character '" ++ Text.ofRune hi.code ++ "' should be greater than lo '" ++ Text.ofRune lo.code ++ "'"⟩
    else .ok (.range lo.code hi.code isNegated, rest)
  else
    let (codes, rest) := readText [code ']'] false rs
    let rest ← closeRange rest
    if codes.isEmpty then .error ⟨"could not parse range"⟩ else .ok (.list codes isNegated, rest)

def readRange (rs : List Rune) : Except GlobError (GlobNode × List Rune) :=
  let isNegated := rs.head?.any fun r => r.code == code '!'
  readClass isNegated (if isNegated then rs.drop 1 else rs)

/-- Alternatives that are open: the nodes before them, and the alternatives already complete. The
last one comes first everywhere. -/
structure Level where
  before : List GlobNode
  alternatives : List GlobNode

def Level.close (l : Level) (current : List GlobNode) : List GlobNode :=
  .anyOf (.pattern current.reverse :: l.alternatives).reverse :: l.before

/-- Alternatives may stay open at the end of a pattern. -/
def finish (current : List GlobNode) (levels : List Level) : GlobNode :=
  .pattern (levels.foldl (fun current l => l.close current) current).reverse

def read : Nat → List GlobNode → List Level → List Rune → Except GlobError GlobNode
  | _, current, levels, [] => .ok (finish current levels)
  | 0, current, levels, _ => .ok (finish current levels)
  | fuel + 1, current, levels, r :: rs =>
    if isUnreadable r then unreadable
    else if isEnd r then .ok (finish current levels)
    else if r.code == code '\x7b' then read fuel [] (⟨current, []⟩ :: levels) rs
    else if r.code == code '[' then
      match readRange rs with
      | .error e => .error e
      | .ok (node, rest) => read fuel (node :: current) levels rest
    else if r.code == code '?' then read fuel (.single :: current) levels rs
    else if r.code == code '*' then
      match rs with
      | [] => read fuel (.any :: current) levels rs
      | next :: rest =>
        if isUnreadable next then unreadable
        else if next.code == code '*' then read fuel (.super :: current) levels rest
        else read fuel (.any :: current) levels rs
    else
      match levels, r.code == code ',', r.code == code '\x7d' with
      | l :: outer, true, _ =>
        read fuel [] (⟨l.before, .pattern current.reverse :: l.alternatives⟩ :: outer) rs
      | l :: outer, _, true => read fuel (l.close current) outer rs
      | _, _, _ =>
        let common := [code '?', code '*', code '[', code '\x7b']
        let breakers := if levels.isEmpty then common else common ++ [code '\x7d', code ',']
        let (codes, rest) := readText breakers false (r :: rs)
        if rest.head?.any isUnreadable then unreadable
        else if codes.isEmpty then read fuel current levels rest
        else read fuel (.text (codes.flatMap Text.ofRune) :: current) levels rest

def parse (s : Text) : Except GlobError GlobNode := read (s.length + 1) [] [] s.runes

end GlobNode

namespace Glob

def simplify : Matcher → Matcher
  | .anyOf [m] => m
  | .list [c] false => .text (Text.ofRune c)
  | .around part left right leftLength rightLength n =>
    let left := simplifyOpt left
    let right := simplifyOpt right
    match part with
    | .text t =>
      match left, right with
      | none, none => .text t
      | some .super, some .super => .contains t false
      | some .super, none => .endsWith t
      | none, some .super => .startsWith t
      | none, some (.endsWith s) => .startsEnds t s
      | some (.startsWith p), none => .startsEnds p t
      | some .any, none => .endsAny t
      | none, some .any => .startsAny t
      | left, right => .around part left right leftLength rightLength n
    | part => .around part left right leftLength rightLength n
  | m => m
where
  simplifyOpt : Option Matcher → Option Matcher
    | none => none
    | some m => some (simplify m)

/-- What a part demands of every character: to be none of these. -/
def avoided? : Matcher → Option (List Nat)
  | .super => some []
  | .any | .single => some [47]
  | .list chars true => some chars
  | _ => none

def glueAvoiding (ms : List Matcher) : Option Matcher :=
  match ms.map avoided? with
  | some chars :: rest =>
    if rest.isEmpty || !rest.all (· == some chars) then none
    else
      let hasSuper := ms.any (· matches .super)
      let hasAny := ms.any (· matches .any)
      let least := ms.countP fun m => !(m matches .super | .any)
      if hasSuper && !hasAny && least == 0 then some .super
      else if hasAny && !hasSuper && least == 0 then some .any
      else
        let bounds : List Matcher :=
          if least == 0 then []
          else if hasAny || hasSuper then [.atLeast least]
          else [.atLeast least, .atMost least]
        some (.every (bounds ++ [.contains (chars.flatMap Text.ofRune) true]))
  | _ => none

def glueRow (ms : List Matcher) : Option Matcher :=
  if ms.length ≤ 1 then none
  else
    let lengths := ms.filterMap Matcher.length?
    if lengths.length == ms.length then some (.row ms (lengths.foldl (· + ·) 0)) else none

def glue (ms : List Matcher) : Option Matcher := (glueAvoiding ms).or (glueRow ms)

/-- A run of parts that can be joined, with the matcher for it. -/
structure Joint where
  matcher : Matcher
  start : Nat
  stop : Nat

def Joint.improves (new : Joint) : Option Joint → Bool
  | none => true
  | some best =>
    (match best.matcher.length?, new.matcher.length? with
      | some m, some n => m < n
      | _, _ => false) || best.stop - best.start < new.stop - new.start

def bestJoint (ms : List Matcher) : Option Joint :=
  let runs := (List.range ms.length).flatMap fun l =>
    (List.range (ms.length - l)).map fun k => (l, ms.length - k)
  runs.foldl (fun best (l, r) =>
    match glue ((ms.take r).drop l) with
    | none => best
    | some matcher =>
      let new : Joint := ⟨matcher, l, r⟩
      if new.improves best then some new else best) none

def minimize : Nat → List Matcher → List Matcher
  | 0, ms => ms
  | fuel + 1, ms =>
    match bestJoint ms with
    | none => ms
    | some j => minimize fuel (ms.take j.start ++ [j.matcher] ++ ms.drop j.stop)

/-- The last part of greatest fixed length. -/
def anchor? (ms : List Matcher) : Option (Nat × Matcher) :=
  (ms.zipIdx.foldl (fun best (m, i) =>
    match m.length?, best with
    | none, best => best
    | some n, none => some (n, i, m)
    | some n, some (k, j, a) => if k ≤ n then some (n, i, m) else some (k, j, a))
    (none : Option (Nat × Nat × Matcher))).map fun (_, i, m) => (i, m)

def optLength (m : Option Matcher) : Option Nat := m.elim (some 0) Matcher.length?

def around (part : Matcher) (left right : Option Matcher) : Matcher :=
  .around part left right (optLength left) (optLength right) do
    return (← optLength left) + (← part.length?) + (← optLength right)

def sequence : Nat → List Matcher → Matcher
  | 0, _ => .nothing
  | _ + 1, [] => .nothing
  | _ + 1, [m] => m
  | fuel + 1, first :: rest =>
    let ms := first :: rest
    match glue ms with
    | some m => m
    | none =>
      match anchor? ms with
      | none => around first none (some (sequence fuel rest))
      | some (i, part) =>
        let part? (side : List Matcher) : Option Matcher :=
          if side.isEmpty then none else some (sequence fuel side)
        around part (part? (ms.take i)) (part? (ms.drop (i + 1)))

def childrenOf : GlobNode → List GlobNode
  | .pattern children | .anyOf children => children
  | _ => []

/-- How many nodes alternatives share at their ends: `i` and `j` run over the shortest one
from its left and from its right. -/
structure Shared where
  left : Nat := 0
  right : Nat := 0
  breakLeft : Bool := false
  breakRight : Bool := false

/-- Compares position `i` from the left, and from the right, with one other alternative. -/
def Shared.compare (tree : List GlobNode) (i j : Nat) (s : Shared) (other : List GlobNode) : Shared :=
  if s.breakLeft && s.breakRight then s
  else
    let breakLeft := s.breakLeft || !(tree[i]? == other[i]?)
    let breakRight :=
      s.breakRight || (!breakLeft && j ≤ i) || !(tree[j]? == other[j + other.length - tree.length]?)
    { s with breakLeft, breakRight }

def sharedLoop (tree : List GlobNode) (others : List (List GlobNode)) : Nat → Nat → Shared → Shared
  | 0, _, s => s
  | steps + 1, i, s =>
    if tree.length ≤ s.left + s.right || (s.breakLeft && s.breakRight) then s
    else
      let s := others.foldl (Shared.compare tree i (tree.length - 1 - i)) s
      sharedLoop tree others steps (i + 1)
        { s with
          left := if s.breakLeft then s.left else s.left + 1
          right := if s.breakRight then s.right else i + 1 }

def shortest (alternatives : List (List GlobNode)) : Nat :=
  let lengths := alternatives.map (·.length)
  lengths.idxOf (lengths.min?.getD 0)

def shared (alternatives : List (List GlobNode)) : Nat × Nat :=
  if alternatives.length ≤ 1 then (0, 0)
  else
    let k := shortest alternatives
    let tree := alternatives.getD k []
    let s := sharedLoop tree (alternatives.eraseIdx k) tree.length 0 {}
    (s.left, s.right)

def addNew (nodes : List GlobNode) (n : GlobNode) : List GlobNode :=
  if nodes.any (· == n) then nodes else nodes ++ [n]

def factor? (alternatives : List GlobNode) : Option GlobNode :=
  if !alternatives.all (· matches .pattern _) then none
  else
    let lists := alternatives.map childrenOf
    let (left, right) := shared lists
    if left == 0 && right == 0 then none
    else
      let tree := lists.getD (shortest lists) []
      let rest : List GlobNode := lists.foldl (fun (nodes : List GlobNode) children =>
        match (children.take (children.length - right)).drop left with
        | [] => addNew nodes .nothing
        | inner => addNew nodes (.pattern inner)) []
      let middle : List GlobNode :=
        match rest with
        | [.nothing] => []
        | [n] => [n]
        | nodes => [.anyOf nodes]
      some (.pattern
        ((if left == 0 then [] else [.pattern (tree.take left)]) ++ middle ++
          (if right == 0 then [] else [.pattern (tree.drop (tree.length - right))])))

def compile : Nat → GlobNode → Matcher
  | 0, _ => .nothing
  | fuel + 1, node =>
    match node with
    | .text s => .text s
    | .any => .any
    | .super => .super
    | .single => .single
    | .nothing => .nothing
    | .list chars isNegated => simplify (.list chars isNegated)
    | .range lo hi isNegated => .range lo hi isNegated
    | .pattern [] => .nothing
    | .pattern children =>
      let ms := children.map fun c => simplify (compile fuel c)
      let ms := minimize ms.length ms
      simplify (sequence (ms.length + 1) ms)
    | .anyOf alternatives =>
      match factor? alternatives with
      | some n => compile fuel n
      | none => .anyOf (alternatives.map fun c => simplify (compile fuel c))

end Glob

structure PathGlob where
  source : Text
  matcher : Matcher

namespace PathGlob

def ofText (s : Text) : Except GlobError PathGlob :=
  (GlobNode.parse s).map fun node => ⟨s, Glob.compile (4 * node.size + 4) node⟩

def ofTexts : List Text → Except GlobError (List PathGlob)
  | [] => .ok []
  | s :: rest => do return (← ofText s) :: (← ofTexts rest)

def isMatch (g : PathGlob) (path : Text) : Bool := g.matcher.isMatch path

def anyMatch (globs : List PathGlob) (path : Text) : Bool := globs.any fun g => g.isMatch path

def errorMessage (e : GlobError) : Text := "invalid exclude pattern\n" ++ e.message

end PathGlob

end ScriptBuild
