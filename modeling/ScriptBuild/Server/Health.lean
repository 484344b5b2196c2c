import ScriptBuild.Dictionary
import ScriptBuild.Disk.Basic
import ScriptBuild.Duration
import ScriptBuild.Json.Basic
import ScriptBuild.Url

/-! Health of a running watch: checks with a state each, probes, and the answers to requests. -/

namespace ScriptBuild

open Text

/-- A time as it is written: nine digits of a fraction at most, no zeros at its end, and `Z` for no
offset. -/
def Timestamp.canonical (s : Text) : Text :=
  let (start, rest) := (s.take 19, s.drop 19)
  let fraction := if rest.head? == some 0x2E then rest.tail.takeWhile isDigit else []
  let zone := if rest.head? == some 0x2E then rest.tail.dropWhile isDigit else rest
  let fraction := trimRightBytes (fun b => b == '0') (fraction.take 9)
  let point : Text := if fraction.isEmpty then [] else "."
  start ++ point ++ fraction ++ if zone == "+00:00" || zone == "-00:00" then [0x5A] else zone

structure BuildSummary where
  sequence : Nat := 0
  root : Text := []
  backend : Text := []
  isSuccess : Bool := false
  artifacts : Int := 0
  errors : Int := 0
  warnings : Int := 0
  duration : Duration := ⟨0⟩
  /-- The time of its end; empty if it is not known. -/
  finished : Text := []
  changed : List Text := []

namespace BuildSummary

def toJson (s : BuildSummary) : Json :=
  let members : List (Text × Json) :=
    [("sequence", .nat s.sequence), ("root", .string s.root), ("backend", .string s.backend),
    ("success", .bool s.isSuccess), ("artifacts", .int s.artifacts), ("errors", .int s.errors),
    ("warnings", .int s.warnings), ("duration_ns", .int s.duration.nanoseconds),
    ("finished", .string s.finished)]
  .object (members ++ Json.memberIf (!s.changed.isEmpty) "changed" (.strings s.changed))

end BuildSummary

structure BuildStatus where
  count : Nat := 0
  last : BuildSummary := {}

namespace BuildStatus

/-- Takes a build as the latest one and numbers it. A build whose end is not known ended now. -/
def record (b : BuildStatus) (now : Text) (s : BuildSummary) : BuildStatus :=
  let finished := if s.finished.isEmpty then now else s.finished
  { count := b.count + 1, last := { s with sequence := b.count + 1, finished } }

def last? (b : BuildStatus) : Option BuildSummary := if b.count == 0 then none else some b.last

end BuildStatus

structure HealthFinding where
  state : Text
  message : Text := []
  details : Dictionary Text := []

namespace HealthFinding

def healthy : Text := "healthy"

def degraded : Text := "degraded"

def unhealthy : Text := "unhealthy"

def toJson (name : Text) (f : HealthFinding) : Json :=
  .object ([(ofString "name", .string name), (ofString "status", .string f.state)] ++
    Json.memberIf (!f.message.isEmpty) "message" (.string f.message) ++
    Json.memberIf (!f.details.isEmpty) "details" (.texts f.details.sorted))

def worse (overall : Text) (f : HealthFinding) : Text :=
  if f.state == unhealthy then unhealthy
  else if f.state == degraded && overall == healthy then degraded
  else overall

/-- A remote part, such as a database, and how reaching it failed. -/
def ofDependency (component : Text) (failure : Option Text) : HealthFinding :=
  match failure with
  | some e => { state := unhealthy, message := component ++ " connection failed: " ++ e }
  | none => { state := healthy, message := component ++ " connection OK" }

/-- The latest build; errors in it degrade the whole. -/
def ofStatus (b : BuildStatus) : HealthFinding :=
  match b.last? with
  | none => { state := healthy, message := "No build yet" }
  | some s =>
    let details : Dictionary Text :=
      [("root", s.root), ("builds", ofNat s.sequence), ("errors", ofInt s.errors),
        ("warnings", ofInt s.warnings)]
    if s.isSuccess then { state := healthy, message := "Last build succeeded", details }
    else
      { state := degraded, message := "Last build failed with " ++ ofInt s.errors ++ " error(s)", details }

/-- The root that artifacts go to. One that is missing is made by the next build. -/
def ofOutputRoot (d : Disk) (root : Text) : HealthFinding :=
  let details : Dictionary Text := [("path", root)]
  match d.stat root with
  | .error e =>
    if e.isMissing then { state := degraded, message := "Output root does not exist yet", details }
    else { state := unhealthy, message := "Output root: " ++ e.message, details }
  | .ok e =>
    if e.isDirectory then { state := healthy, message := "Output root OK", details }
    else { state := unhealthy, message := "Output root is not a directory", details }

end HealthFinding

structure Response where
  code : Nat
  type : Text
  body : Text
  /-- Where the request has to be sent instead. -/
  location : Option Text := none

structure HealthServer where
  version : Text := []
  checks : Dictionary HealthFinding := []
  status : Option BuildStatus := none
  metrics : Option Text := none
  hasEvents : Bool := false
  isReady : Bool := false
  isLive : Bool := true

namespace HealthServer

def json (code : Nat) (j : Json) : Response := { code, type := "application/json", body := j.compact ++ "\n" }

/-- All findings in the order of their names; the latest build is one of them unless a check has its name. -/
def findings (s : HealthServer) : Dictionary HealthFinding :=
  let build : Dictionary HealthFinding :=
    match s.status with
    | some b => [("build", .ofStatus b)]
    | none => []
  (s.checks.foldl (fun d (name, f) => d.insert name f) build).sorted

def health (s : HealthServer) (now : Text) : Response :=
  let found := s.findings
  let state := found.foldl (fun overall (_, f) => HealthFinding.worse overall f) HealthFinding.healthy
  let members : List (Text × Json) := [("status", .string state), ("timestamp", .string now)]
  json (if state == HealthFinding.unhealthy then 503 else 200) (.object (members ++
    Json.memberIf (!s.version.isEmpty) "version" (.string s.version) ++
    Json.memberIf (!found.isEmpty) "checks" (.array (found.map fun (name, f) => f.toJson name))))

def probe (now : Text) (isFine : Bool) : Response :=
  let state := if isFine then HealthFinding.healthy else HealthFinding.unhealthy
  json (if isFine then 200 else 503) (.object [("status", .string state), ("timestamp", .string now)])

def latest (b : BuildStatus) : Response :=
  match b.last? with
  | none => json 404 (.object [("error", .string "no build has finished yet")])
  | some s => json 200 s.toJson

def notFound : Response := { code := 404, type := "text/plain; charset=utf-8", body := "404 page not found\n" }

def route (s : HealthServer) (now path : Text) : Response :=
  if path == "/health" || path == "/healthz" then s.health now
  else if path == "/ready" || path == "/readyz" then probe now s.isReady
  else if path == "/live" || path == "/livez" then probe now s.isLive
  else if path == "/status" then (s.status.map latest).getD notFound
  else if path == "/metrics" then
    match s.metrics with
    | some text => { code := 200, type := "text/plain; version=0.0.4; charset=utf-8", body := text }
    | none => notFound
  else if path == "/events" && s.hasEvents then { code := 200, type := "text/event-stream", body := [] }
  else notFound

/-- A path without doubled slashes and dots; a slash at its end stays. -/
def cleanPath (path : Text) : Text :=
  let rooted := if path.head? == some 0x2F then path else "/" ++ path
  let cleaned := Path.clean rooted
  if path.getLast? == some 0x2F && cleaned != "/" then cleaned ++ "/" else cleaned

def entities : List (UInt8 × Text) :=
  [('&', "&amp;"), ('<', "&lt;"), ('>', "&gt;"), ('"', "&#34;"), ('\'', "&#39;")]

def escapeHtml (s : Text) : Text := s.flatMap fun b => (entities.lookup b).getD [b]

def redirect (method target : Text) : Response :=
  let page : Text := "<a href=\"" ++ escapeHtml target ++ "\">Temporary Redirect</a>.\n\n"
  let isReader := method == "GET" || method == "HEAD"
  { code := 307
    type := onlyIf isReader "text/html; charset=utf-8"
    body := onlyIf (method == "GET") page
    location := some target }

/-- The answer to a request. A path that is not clean is sent on to the clean one, except where the
request is for a connection. -/
def respond (s : HealthServer) (now method target : Text) : Response :=
  let (path, query) := Url.ofTarget target
  let cleaned := if method == "CONNECT" then path else cleanPath path
  if target == "*" then { code := 400, type := [], body := [] }
  else if cleaned == path then s.route now ((Url.unescape .other path).toOption.getD path)
  else redirect method (if query.isEmpty then cleaned else cleaned ++ "?" ++ query)

/-- What a reader gets who goes on to the place that an answer names. -/
def fetch (s : HealthServer) (now target : Text) : Response :=
  let r := s.respond now "GET" target
  match r.location with
  | some target => s.respond now "GET" target
  | none => r

end HealthServer

end ScriptBuild
