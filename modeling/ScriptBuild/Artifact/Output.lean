import ScriptBuild.Artifact.FileTree
import ScriptBuild.Json.Basic
import ScriptBuild.Url

/-! Where the artifacts of a build go: below a root on the disk, or into a bucket. -/

namespace ScriptBuild

open Text

inductive EndpointError where
  | malformed (cause : UrlError)
  | hasPath
  | badHost (host : Text)
  | storeName (rule : Text)
  deriving DecidableEq

def EndpointError.message : EndpointError → Text
  | .malformed cause => cause.message
  | .hasPath => "Endpoint url cannot have fully qualified paths."
  | .badHost host => "Endpoint: " ++ host ++ " does not follow ip address or domain name standards."
  | .storeName rule => rule

namespace Endpoint

/-- Whether a text has the form of a pattern, in which `?` is any byte and `*` any bytes. -/
def hasForm : Text → Text → Bool
  | [], s => s.isEmpty
  | 0x2A :: pattern, s => (List.range (s.length + 1)).any fun n => hasForm pattern (s.drop n)
  | 0x3F :: pattern, s => !s.isEmpty && hasForm pattern (s.drop 1)
  | b :: pattern, s => s.head? == some b && hasForm pattern (s.drop 1)

/-- Balancers stand before stores of all regions. -/
def balancerForms : List Text := ["*elb*?amazonaws?com", "*elb*?amazonaws?com?cn"]

def regionForms : List Text :=
  ["s3-*?amazonaws?com", "s3?dualstack?*?amazonaws?com", "s3?cn*?amazonaws?com?cn",
    "s3?dualstack?cn*?amazonaws?com?cn", "bucket?vpce-*?s3?*?vpce?amazonaws?com",
    "accesspoint?vpce-*?s3?*?vpce?amazonaws?com"]

def isNameByte (b : UInt8) : Bool := isLower b || isDigit b

/-- Whether a host names a region after a zone, or after the word for the control of all zones. -/
def isZonal (host : Text) : Bool :=
  match cut? "." host with
  | none => false
  | some (lead, rest) =>
    let region := dropSuffix ".amazonaws.com" rest
    let zone := dropPrefix "s3express-" lead
    let isZone := match cutLast? "-az" zone with
      | some (name, [digit]) =>
        3 ≤ name.length && name.length ≤ 7 && name.all isNameByte && '1' ≤ digit && digit ≤ '6'
      | _ => false
    startsWith lead "s3express-" && endsWith rest ".amazonaws.com" && !region.isEmpty &&
      (region.all fun b => isNameByte b || b == '-') && (isZone || zone == "control")

/-- Whether a host of the store with the most regions names one of them. -/
def hasRegion (host : Text) : Bool :=
  !balancerForms.any (hasForm · host) &&
    (regionForms.any (hasForm · host) || isZonal host ||
      (hasForm "s3?*?amazonaws?com" host && !startsWith (host.drop 3) "xpress-"))

def isDomain (s : Text) : Bool :=
  let s := trim s
  let isEnd (b : Option UInt8) : Bool := b == some 0x2D || b == some 0x5F
  !s.isEmpty && s.length ≤ 255 && !isEnd s.head? && !isEnd s.getLast? && s.head? != some 0x2E &&
    !s.any fun b => containsText "`~!@#$%^&*()+=\x7b\x7d[]|\\\"';:><?/" [b]

def check (isSecure : Bool) (endpoint : Text) : Except EndpointError Unit := do
  let scheme : Text := if isSecure then "https://" else "http://"
  let url ← (Url.parse (scheme ++ endpoint)).mapError .malformed
  let host := url.hostname
  if !url.path.isEmpty && url.path != "/" then throw .hasPath
  if !IpAddress.isPlain host && !isDomain host then throw (.badHost url.host)
  if containsText host ".s3.amazonaws.com" && !hasRegion host then
    throw (.storeName "Amazon S3 endpoint should be 's3.amazonaws.com'.")
  if containsText host ".googleapis.com" && host != "storage.googleapis.com" then
    throw (.storeName "Google Cloud Storage endpoint should be 'storage.googleapis.com'.")

end Endpoint

namespace BucketName

def isShortNumber (s : Text) : Bool :=
  let parts := split '.' s
  parts.length == 4 && parts.all fun p => !p.isEmpty && p.all isDigit

def isEndByte (isStrict : Bool) (b : UInt8) : Bool :=
  isDigit b || isLower b || (!isStrict && isUpper b)

def isInnerByte (isStrict : Bool) (b : UInt8) : Bool :=
  isEndByte isStrict b || b == '.' || b == '-' || (!isStrict && (b == '_' || b == ':'))

/-- What is wrong with the name of a bucket. A bucket that is made needs a strict name. -/
def fault? (isStrict : Bool) (s : Text) : Option Text :=
  let isEnd (b : Option UInt8) : Bool := (b.map (isEndByte isStrict)).getD false
  if (trim s).isEmpty then some "Bucket name cannot be empty"
  else if s.length < 3 then some "Bucket name cannot be shorter than 3 characters"
  else if s.length > 63 then some "Bucket name cannot be longer than 63 characters"
  else if isShortNumber s then some "Bucket name cannot be an ip address"
  else if containsText s ".." || containsText s ".-" || containsText s "-." ||
      !isEnd s.head? || !isEnd s.getLast? || !s.all (isInnerByte isStrict) then
    some "Bucket name contains invalid characters"
  else none

end BucketName

structure ObjectConfig where
  endpoint : Text := []
  region : Text := []
  accessKey : Text := []
  secretKey : Text := []
  bucket : Text := []
  lead : Text := []
  useSsl : Bool := false

inductive ObjectConfigError where
  | noEndpoint
  | noKeys
  | noBucket
  | endpoint (cause : EndpointError)
  deriving DecidableEq

def ObjectConfigError.message : ObjectConfigError → Text
  | .noEndpoint => "object store endpoint is required"
  | .noKeys => "object store access key and secret key are required"
  | .noBucket => "object store bucket is required"
  | .endpoint cause => "init object store client: " ++ cause.message

structure ObjectTarget where
  bucket : Text
  lead : Text

namespace ObjectTarget

def ofConfig (c : ObjectConfig) : Except ObjectConfigError ObjectTarget :=
  if (trim c.endpoint).isEmpty then .error .noEndpoint
  else if (trim c.accessKey).isEmpty || (trim c.secretKey).isEmpty then .error .noKeys
  else if (trim c.bucket).isEmpty then .error .noBucket
  else
    match Endpoint.check c.useSsl (trim c.endpoint) with
    | .error e => .error (.endpoint e)
    | .ok () => .ok ⟨trim c.bucket, trimBytes (fun b => b == '/') c.lead⟩

/-- The key of the object for an artifact path. The path cannot lead out of the bucket's part. -/
def key (t : ObjectTarget) (path : Text) : Text :=
  let path := dropPrefix "/" (Path.clean ("/" ++ path))
  if t.lead.isEmpty then path else t.lead ++ "/" ++ path

end ObjectTarget

def contentType (path : Text) : Text :=
  let ext := Path.ext path
  if ext == ".js" then "text/javascript"
  else if ext == ".ts" then "application/typescript"
  else if ext == ".as" then "text/plain"
  else "application/octet-stream"

inductive StoreRequest where
  | head (bucket : Text)
  | make (bucket : Text)
  | put (bucket key type data : Text)

def StoreRequest.action : StoreRequest → Text
  | .head _ => "head"
  | .make _ => "make"
  | .put _ key _ _ => key

def StoreRequest.toJson : StoreRequest → Json
  | .head bucket => .object [("bucket", .string bucket), ("do", .string "head")]
  | .make bucket => .object [("bucket", .string bucket), ("do", .string "make")]
  | .put bucket key type data =>
    .object [("bucket", .string bucket), ("do", .string "put"), ("key", .string key), ("type", .string type),
      ("text", .string data)]

structure ObjectStore where
  hasBucket : Bool := false
  /-- A request is refused if one of these is part of its action. -/
  denied : List Text := []
  requests : List StoreRequest := []
  /-- The outcome of looking for the bucket, once that was done. -/
  checked : Option (Option Text) := none

namespace ObjectStore

def isDenied (s : ObjectStore) (r : StoreRequest) : Bool :=
  s.denied.any fun part => containsText r.action part

def request (s : ObjectStore) (r : StoreRequest) : Option Text × ObjectStore :=
  (if s.isDenied r then some "Access Denied." else none, { s with requests := s.requests ++ [r] })

def check (t : ObjectTarget) (s : ObjectStore) : Option Text × ObjectStore :=
  match BucketName.fault? false t.bucket with
  | some fault => (some fault, s)
  | none =>
    match s.request (.head t.bucket) with
    | (some reason, s) => (some reason, s)
    | (none, s) =>
      if s.hasBucket then (none, s)
      else
        match BucketName.fault? true t.bucket with
        | some fault => (some fault, s)
        | none => s.request (.make t.bucket)

/-- The outcome of the check for the bucket, which is made on first use. -/
def ensureBucket (t : ObjectTarget) (s : ObjectStore) : Option Text × ObjectStore :=
  match s.checked with
  | some outcome => (outcome, s)
  | none =>
    let (outcome, s) := check t s
    (outcome, { s with checked := some outcome })

def prepare (t : ObjectTarget) (s : ObjectStore) : Except WriteError Unit × ObjectStore :=
  match ensureBucket t s with
  | (some reason, s) => (.error (.unwritable ("bucket " ++ t.bucket) reason), s)
  | (none, s) => (.ok (), s)

def write (t : ObjectTarget) (s : ObjectStore) (path data : Text) : Except WriteError Unit × ObjectStore :=
  match ensureBucket t s with
  | (some reason, s) => (.error (.store "ensure bucket" reason), s)
  | (none, s) =>
    let key := t.key path
    match s.request (.put t.bucket key (contentType path) data) with
    | (some reason, s) => (.error (.store ("put " ++ key) reason), s)
    | (none, s) => (.ok (), s)

end ObjectStore

structure Storage where
  disk : Disk
  store : ObjectStore := {}

inductive Output where
  | files (root : Text)
  | objects (target : ObjectTarget)

namespace Output

def onDisk (s : Storage) (f : Disk → Except WriteError Unit × Disk) : Except WriteError Unit × Storage :=
  let (result, disk) := f s.disk
  (result, { s with disk })

def inStore (s : Storage) (f : ObjectStore → Except WriteError Unit × ObjectStore) : Except WriteError Unit × Storage :=
  let (result, store) := f s.store
  (result, { s with store })

def writer (o : Output) (canceled : Bool) : Writer Storage :=
  match o with
  | .files root =>
    { prepare := fun s => onDisk s (FileTree.prepare root { early := canceled })
      write := fun s path data => onDisk s fun d => FileTree.write root { early := canceled } d path data }
  | .objects target =>
    { prepare := fun s => inStore s (ObjectStore.prepare target)
      write := fun s path data => inStore s fun store => ObjectStore.write target store path data }

end Output

end ScriptBuild
