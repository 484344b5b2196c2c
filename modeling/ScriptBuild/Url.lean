import ScriptBuild.Text.Quoted

/-! Addresses such as `scheme://user@host:port/path?query#fragment`. -/

namespace ScriptBuild

open Text

/-- What is wrong with a numeric address, and what is left of it where that is noted. -/
structure IpFault where
  reason : Text
  rest : Text := []
  deriving DecidableEq

structure IpError where
  address : Text
  fault : IpFault
  deriving DecidableEq

def IpError.message (e : IpError) : Text :=
  "ParseAddr(" ++ e.address.quote ++ "): " ++ e.fault.reason ++
    onlyIf (!e.fault.rest.isEmpty) (" (at " ++ e.fault.rest.quote ++ ")")

inductive IpAddress where
  | short
  | long (zone : Text)
  deriving DecidableEq

namespace IpAddress

/-- Checks numbers with points between them. `points` is how many points were read, and `value` the
number so far. -/
def checkNumbers : Nat → Option Nat → Text → Except IpFault Unit
  | points, _, [] => if points < 3 then .error ⟨"IPv4 address too short", []⟩ else .ok ()
  | points, value, b :: s =>
    if isDigit b then
      let n := 10 * value.getD 0 + (b.toNat - 48)
      if value == some 0 then .error ⟨"IPv4 field has octet with leading zero", []⟩
      else if n > 255 then .error ⟨"IPv4 field has value >255", []⟩
      else checkNumbers points (some n) s
    else if b == '.' then
      if value.isNone || s.isEmpty then .error ⟨"IPv4 field must have at least one digit", b :: s⟩
      else if points == 3 then .error ⟨"IPv4 address too long", []⟩
      else checkNumbers (points + 1) none s
    else .error ⟨"unexpected character", b :: s⟩

/-- The number of groups, and whether there is a gap between them. `room` is how many groups may
still come, `count` how many were read. -/
def countGroups : Nat → Nat → Bool → Text → Except IpFault (Nat × Bool)
  | 0, count, hasGap, s => if s.isEmpty then .ok (count, hasGap) else .error ⟨"trailing garbage after address", s⟩
  | room + 1, count, hasGap, s =>
    let digits := s.takeWhile isHex
    if digits.length > 4 then .error ⟨"each group must have 4 or less digits", s⟩
    else if digits.isEmpty then .error ⟨"each colon-separated field must have at least one digit", s⟩
    else
      match s.drop digits.length with
      | [] => .ok (count + 1, hasGap)
      | [0x3A] => .error ⟨"colon must be followed by more characters", ":"⟩
      | 0x2E :: _ =>
        if !hasGap && count != 6 then
          .error ⟨"embedded IPv4 address must replace the final 2 fields of the address", s⟩
        else if count > 6 then
          .error ⟨"too many hex fields to fit an embedded IPv4 at the end of the address", s⟩
        else (checkNumbers 0 none s).map fun _ => (count + 2, hasGap)
      | 0x3A :: 0x3A :: rest =>
        if hasGap then .error ⟨"multiple :: in address", ":" ++ rest⟩
        else if rest.isEmpty then .ok (count + 1, true)
        else countGroups room (count + 1) true rest
      | 0x3A :: rest => countGroups room (count + 1) hasGap rest
      | rest => .error ⟨"unexpected character, want colon", rest⟩

def checkGroups (s : Text) : Except IpFault Unit := do
  if s == "::" then return
  let (count, hasGap) ←
    match s with
    | 0x3A :: 0x3A :: rest => countGroups 8 0 true rest
    | _ => countGroups 8 0 false s
  if count < 8 && !hasGap then throw ⟨"address string too short", []⟩
  if count == 8 && hasGap then throw ⟨"the :: must expand to at least one field of zeros", []⟩

def readLong (s : Text) : Except IpFault IpAddress :=
  match cut? "%" s with
  | some (address, zone) =>
    if zone.isEmpty then .error ⟨"zone must be a non-empty string", []⟩
    else (checkGroups address).map fun _ => .long zone
  | none => (checkGroups s).map fun _ => .long []

/-- The first byte that tells the forms apart decides which one an address is read as. -/
def read (s : Text) : Except IpFault IpAddress :=
  match s.find? fun (b : UInt8) => b == '.' || b == ':' || b == '%' with
  | none => .error ⟨"unable to parse IP", []⟩
  | some b =>
    if b == '.' then (checkNumbers 0 none s).map fun _ => .short
    else if b == ':' then readLong s
    else .error ⟨"missing IPv6 address", []⟩

def parse (s : Text) : Except IpError IpAddress := (read s).mapError fun fault => ⟨s, fault⟩

def isPlain (s : Text) : Bool :=
  match read s with
  | .ok .short | .ok (.long []) => true
  | _ => false

end IpAddress

structure UrlError where
  address : Text
  reason : Text
  deriving DecidableEq

def UrlError.message (e : UrlError) : Text := "parse " ++ e.address.quote ++ ": " ++ e.reason

structure Url where
  scheme : Text := []
  host : Text := []
  path : Text := []
  query : Text := []

inductive UrlPart where
  | host
  | zone
  | other
  /-- A part in which a plus sign is a space. -/
  | query
  deriving DecidableEq

namespace Url

def isSchemeByte (b : UInt8) : Bool := isAlpha b || isDigit b || containsText "+-." [b]

def splitScheme (s : Text) : Except Text (Text × Text) :=
  let lead := s.takeWhile isSchemeByte
  match s.drop lead.length with
  | 0x3A :: rest =>
    match lead with
    | [] => .error "missing protocol scheme"
    | b :: _ => .ok (if isAlpha b then (lead.map lowerByte, rest) else ([], s))
  | _ => .ok ([], s)

def isHostByte (b : UInt8) : Bool :=
  isAlpha b || isDigit b || containsText "-_.~!$&'()*+,;=:[]<>\"" [b]

/-- Whether a byte may be escaped. In a host that is so for bytes beyond ASCII, in a zone for bytes
that may stand as they are and for the space, in both for the percent sign. -/
def mayEscape (part : UrlPart) (b : UInt8) : Bool :=
  match part with
  | .host => b ≥ 0x80 || b == '%'
  | .zone => isHostByte b || b == ' ' || b == '%'
  | .other | .query => true

def mayStand (part : UrlPart) (b : UInt8) : Bool :=
  match part with
  | .host | .zone => b ≥ 0x80 || isHostByte b
  | .other | .query => true

def badEscape (s : Text) : Except Text Text := .error ("invalid URL escape " ++ s.quote)

def unescape (part : UrlPart) : Text → Except Text Text
  | [] => .ok []
  | 0x25 :: a :: b :: s =>
    let code := (hexValue [a, b]).toUInt8
    if !(isHex a && isHex b) || !mayEscape part code then badEscape [0x25, a, b]
    else (unescape part s).map fun rest => code :: rest
  | b :: s =>
    if b == '%' then badEscape (b :: s)
    else if !mayStand part b then .error ("invalid character " ++ quote [b] ++ " in host name")
    else (unescape part s).map fun rest => (if part == .query && b == '+' then 32 else b) :: rest

def isPort (s : Text) : Bool := s.isEmpty || (s.head? == some 0x3A && (s.drop 1).all isDigit)

def checkPort (s : Text) : Except Text Unit :=
  if isPort s then .ok () else .error ("invalid port " ++ s.quote ++ " after host")

/-- The long numeric address between brackets, with its escapes resolved. -/
def readNumeric (s : Text) : Except Text Text := do
  let inside ←
    match indexOf? "%25" s with
    | some n => pure ((← unescape .host (s.take n)) ++ (← unescape .zone (s.drop n)))
    | none => unescape .host s
  match IpAddress.parse inside with
  | .error e => .error ("invalid host: " ++ e.message)
  | .ok .short => .error "invalid IP-literal"
  | .ok (.long _) => return inside

def readHost (s : Text) : Except Text Text := do
  match cutLast? "[" s with
  | some ([], rest) =>
    let some (inside, port) := cutLast? "]" rest | .error "missing ']' in host"
    checkPort port
    return "[" ++ (← readNumeric inside) ++ "]" ++ port
  | some _ => .error "invalid IP-literal"
  | none =>
    checkPort (((cutLast? ":" s).map fun (_, port) => ":" ++ port).getD [])
    unescape .host s

def isUserByte (b : UInt8) : Bool :=
  isAlpha b || isDigit b || containsText "-._:~!$&'()*+,;=%@" [b]

/-- The host of an address, after a user and a password that may stand before it. -/
def readAuthority (s : Text) : Except Text Text :=
  match cutLast? "@" s with
  | none => readHost s
  | some (user, host) => do
    let host ← readHost host
    if !user.all isUserByte then .error "net/url: invalid userinfo"
    let (name, password) := cut ":" user
    let _ ← unescape .other name
    let _ ← unescape .other password
    return host

def readParts (s : Text) : Except Text Url := do
  if s.any fun b => b < 0x20 || b == 0x7F then .error "net/url: invalid control character in URL"
  let (scheme, rest) ← splitScheme s
  let (rest, query) := cut "?" rest
  if rest.head? != some 0x2F then
    if !scheme.isEmpty then return { scheme, query }
    if containsText (cut "/" rest).1 ":" then .error "first path segment in URL cannot contain colon"
  if startsWith rest "//" && (!scheme.isEmpty || !startsWith rest "///") then
    let authority := (rest.drop 2).takeWhile fun (b : UInt8) => b != '/'
    let host ← readAuthority authority
    return { scheme, host, path := ← unescape .other (rest.drop (authority.length + 2)), query }
  return { scheme, path := ← unescape .other rest, query }

def parse (s : Text) : Except UrlError Url :=
  let (address, fragment) := cut "#" s
  match readParts address, unescape .other fragment with
  | .error fault, _ => .error ⟨address, fault⟩
  | .ok _, .error fault => .error ⟨s, fault⟩
  | .ok url, .ok _ => .ok url

def hostname (u : Url) : Text :=
  let host := match cutLast? ":" u.host with
    | some (host, port) => if isPort (":" ++ port) then host else u.host
    | none => u.host
  if host.head? == some 0x5B && host.getLast? == some 0x5D then (host.drop 1).dropLast else host

/-- Whether a byte of a path is written as it is when a path is escaped. -/
def isPathByte (b : UInt8) : Bool := isAlpha b || isDigit b || containsText "-_.~$&+,/:;=@" [b]

def escapePath (s : Text) : Text :=
  s.flatMap fun b => if isPathByte b then [b] else 0x25 :: (ofHex 2 b.toNat).map upperByte

/-- A path with escapes, as it stands in an address. One that has other bytes than it may have is
escaped anew. -/
def escapedPath (path : Text) : Text :=
  if path.all fun b => isPathByte b || containsText "!'()*[]%" [b] then path
  else
    match unescape .other path with
    | .ok plain => escapePath plain
    | .error _ => path

/-- The path and the query of the target of a request, which may be a whole address. -/
def ofTarget (target : Text) : Text × Text :=
  let (address, query) := cut "?" target
  if address.head? == some 0x2F then (escapedPath address, query)
  else
    match cut? "://" address with
    | some (_, rest) => (escapedPath (rest.dropWhile fun b => b != 0x2F), query)
    | none => ([], query)

/-- The keys and values of a query, in order. What has a semicolon or a bad escape is left out. -/
def queryPairs (query : Text) : List (Text × Text) :=
  (split '&' query).filterMap fun item =>
    if item.isEmpty || containsText item ";" then none
    else
      let (key, value) := cut "=" item
      match unescape .query key, unescape .query value with
      | .ok key, .ok value => some (key, value)
      | _, _ => none

end Url

end ScriptBuild
