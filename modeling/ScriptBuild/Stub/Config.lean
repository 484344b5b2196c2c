import ScriptBuild.Disk.Basic
import ScriptBuild.Stub.Doc
import ScriptBuild.Text.LetterCase
import ScriptBuild.Text.Quoted

/-! Settings of a stub run. -/

namespace ScriptBuild

inductive RuleScope where
  | wholeClass
  | field
  | member
  deriving DecidableEq

namespace RuleScope

def label : RuleScope → Text
  | .wholeClass => "class"
  | .field => "field"
  | .member => "member"

def all : List RuleScope := [.wholeClass, .field, .member]

def ofLabel? (s : Text) : Option RuleScope :=
  let s := Text.lower s
  if s == "class" || s == "class-exclude" then some .wholeClass
  else if s == "field" || s == "field-exclude" then some .field
  else if s == "member" || s == "exclude" then some .member
  else none

end RuleScope

structure ExclusionRule where
  scope : RuleScope
  className : Text
  member : Text := []
  description : Text := []
  deriving DecidableEq

def ExclusionRule.isFor (r : ExclusionRule) (className member : Text) : Bool :=
  r.className == className && (r.scope == .wholeClass || r.member == member)

/-- The rules of each scope in the order they were added. -/
structure ExclusionPolicy where
  classes : List ExclusionRule := []
  fields : List ExclusionRule := []
  members : List ExclusionRule := []

namespace ExclusionPolicy

def add (p : ExclusionPolicy) (r : ExclusionRule) : ExclusionPolicy :=
  match r.scope with
  | .wholeClass => { p with classes := p.classes ++ [r] }
  | .field => { p with fields := p.fields ++ [r] }
  | .member => { p with members := p.members ++ [r] }

def ofRules (rules : List ExclusionRule) : ExclusionPolicy := rules.foldl add {}

def size (p : ExclusionPolicy) : Nat := p.classes.length + p.fields.length + p.members.length

def rule? (p : ExclusionPolicy) (e : Entry) : Option ExclusionRule :=
  let className := if e.isMember then e.owner else e.name
  (p.classes.find? fun r => r.isFor className []).or
    (if e.isMember then
      (if e.kind == .field || e.kind == .constant then
        p.fields.find? fun r => r.isFor e.owner e.name
      else none).or
        (p.members.find? fun r => r.isFor e.owner e.name)
    else none)

end ExclusionPolicy

/-- The comment that stands for an excluded declaration: the reason, if there is one, and then
the declaration. -/
def ExclusionRule.placeholder (rule : Option ExclusionRule) (declaration : Text) : Text :=
  let reason : Text := (rule.map (·.description)).getD []
  let heading : Text := if reason.isEmpty then [] else "// " ++ reason ++ "\n"
  heading ++ "//" ++ declaration

structure RuleSpec where
  scope : Text
  className : Text
  member : Text
  description : Text

structure StubOptions where
  root : Text
  externals : List Text := []
  flattened : List Text := []
  classExcludes : List Text := []
  /-- Classes and fields in turn. -/
  fieldExcludes : List Text := []
  /-- Classes and members in turn. -/
  memberExcludes : List Text := []
  rules : List RuleSpec := []

structure StubConfig where
  root : Text
  externals : List Text
  flattened : List Text
  policy : ExclusionPolicy

inductive StubConfigError where
  | noRoot
  | unpaired (option : Text) (count : Nat)
  | emptyElement (option : Text) (position : Nat)
  | unknownScope (index : Nat) (scope : Text)
  | incompleteRule (index : Nat)
  | failedStat (path : Text) (cause : DiskError)
  | missingExternal (path : Text)

namespace StubConfigError

def malformed : Text := "malformed exclusion argument: "

def message : StubConfigError → Text
  | .noRoot => "as-root is required"
  | .unpaired option count =>
    malformed ++ option ++ " expects class/name pairs, got " ++ Text.ofNat count ++ " values"
  | .emptyElement option position =>
    malformed ++ option ++ " has an empty element at position " ++ Text.ofNat position
  | .unknownScope index scope =>
    malformed ++ "exclude-rules[" ++ Text.ofNat index ++ "] has unknown scope " ++ scope.quote
  | .incompleteRule index =>
    malformed ++ "exclude-rules[" ++ Text.ofNat index ++ "] needs a class and, outside class scope, a member"
  | .failedStat path cause => "stat " ++ path ++ ": " ++ cause.message
  | .missingExternal path => "external file does not exist: " ++ path ++ " does not exist."

def isMalformed : StubConfigError → Bool
  | .unpaired _ _ | .emptyElement _ _ | .unknownScope _ _ | .incompleteRule _ => true
  | _ => false

def isMissingFile : StubConfigError → Bool
  | .missingExternal _ => true
  | _ => false

end StubConfigError

namespace StubConfig

def pairsFrom (option : Text) : Nat → List Text → Except StubConfigError (List (Text × Text))
  | position, className :: name :: rest =>
    if className.isEmpty || name.isEmpty then .error (.emptyElement option position)
    else (pairsFrom option (position + 2) rest).map fun pairs => (className, name) :: pairs
  | _, _ => .ok []

def pairs (option : Text) (values : List Text) : Except StubConfigError (List (Text × Text)) :=
  if values.length % 2 == 1 then .error (.unpaired option values.length)
  else pairsFrom option 1 values

def ruleOfSpec (index : Nat) (spec : RuleSpec) : Except StubConfigError ExclusionRule :=
  match RuleScope.ofLabel? spec.scope with
  | none => .error (.unknownScope index spec.scope)
  | some scope =>
    if spec.className.isEmpty || (scope != .wholeClass && spec.member.isEmpty) then
      .error (.incompleteRule index)
    else .ok ⟨scope, spec.className, spec.member, spec.description⟩

def rulesOfSpecs : Nat → List RuleSpec → Except StubConfigError (List ExclusionRule)
  | _, [] => .ok []
  | index, spec :: specs =>
    match ruleOfSpec index spec with
    | .error e => .error e
    | .ok r => (rulesOfSpecs (index + 1) specs).map (r :: ·)

def existing (d : Disk) : List Text → Except StubConfigError (List Text)
  | [] => .ok []
  | path :: paths =>
    let path := Path.clean path
    match d.fileExists path with
    | .error e => .error (.failedStat path e)
    | .ok false => .error (.missingExternal path)
    | .ok true => (existing d paths).map (path :: ·)

def rules (o : StubOptions) : Except StubConfigError (List ExclusionRule) :=
  match pairs "field-exclude" o.fieldExcludes with
  | .error e => .error e
  | .ok fields =>
    match pairs "exclude" o.memberExcludes with
    | .error e => .error e
    | .ok members =>
      (rulesOfSpecs 0 o.rules).map fun rest =>
        o.classExcludes.map (fun c => ⟨.wholeClass, c, [], []⟩) ++
          fields.map (fun (c, name) => ⟨.field, c, name, []⟩) ++
          members.map (fun (c, name) => ⟨.member, c, name, []⟩) ++ rest

def ofOptions (d : Disk) (o : StubOptions) : Except StubConfigError StubConfig :=
  if o.root.isEmpty then .error .noRoot
  else
    match rules o with
    | .error e => .error e
    | .ok rules =>
      (existing d o.externals).map fun externals =>
        ⟨Path.clean o.root, externals, o.flattened, ExclusionPolicy.ofRules rules⟩

end StubConfig

end ScriptBuild
