import ScriptBuild.Emit.Script
import ScriptBuild.Project.Config

/-! What the emission of a file starts from. -/

namespace ScriptBuild

inductive Backend where
  | javascript
  | typescript
  deriving DecidableEq

namespace Backend

def name : Backend → Text
  | .javascript => "js"
  | .typescript => "typescript"

def all : List Backend := [.javascript, .typescript]

def ofName? (name : Text) : Option Backend := all.find? fun b => b.name == name

def subdir : Backend → Text
  | .javascript => "js"
  | .typescript => "ts"

def extension : Backend → Text
  | .javascript => "js"
  | .typescript => "ts"

/-- The options there are, with the values they have if nothing is said. -/
def defaults : Backend → Dictionary Text
  | .javascript => [("closure_provides", "true"), ("jsdoc", "true"), ("indent", "  ")]
  | .typescript => [("strict", "true"), ("export", "true"), ("indent", "  ")]

def extensions (_ : Backend) : Dictionary UnitKind := [(".kn", .source), (".knx", .markup)]

end Backend

inductive SettingsError where
  | noRoot (backend : Backend)
  | unknownOption (backend : Backend) (key : Text)

def SettingsError.message : SettingsError → Text
  | .noRoot backend => backend.name ++ ": output root is required"
  | .unknownOption backend key => backend.name ++ ": unknown option " ++ key.quote

structure Settings where
  backend : Backend
  outputRoot : Text
  values : Dictionary Text

namespace Settings

def get (s : Settings) (key : Text) : Text := (s.values.find? key).getD []

/-- The spellings of a true option; everything else is false. -/
def trueTexts : List Text := ["1", "t", "T", "TRUE", "true", "True"]

def isSet (s : Settings) (key : Text) : Bool := trueTexts.contains (s.get key)

def ofOptions (backend : Backend) (outputRoot : Text) (options : Dictionary Text) : Except SettingsError Settings :=
  if outputRoot.isEmpty then .error (.noRoot backend)
  else
    match (Text.sort options.keys).find? fun key => (backend.defaults.find? key).isNone with
    | some key => .error (.unknownOption backend key)
    | none =>
      .ok ⟨backend, outputRoot, options.foldl (fun values (key, value) => values.insert key value) backend.defaults⟩

end Settings

namespace Class

def numbered (c : Class) : List (Member × Nat) := c.members.zipIdx

def isConstructor (c : Class) : Member → Bool
  | .function f => f.name == c.name && !f.isStatic
  | .variable _ => false

/-- The position of the constructor: the last function that is named like the class. -/
def constructorIndex? (c : Class) : Option Nat :=
  (c.numbered.reverse.find? fun (m, _) => c.isConstructor m).map (·.2)

def constructor? (c : Class) : Option Function :=
  c.constructorIndex?.bind fun i =>
    match c.members[i]? with
    | some (.function f) => some f
    | _ => none

def ordinaryMembers (c : Class) : List Member :=
  (c.numbered.filter fun (_, i) => some i != c.constructorIndex?).map (·.1)

/-- What each member is reached through, `self` being the class. -/
def qualifiers (c : Class) (self : Text) : List (Text × Text) :=
  c.members.filterMap fun m =>
    if c.isConstructor m then none
    else
      let isStatic :=
        match m with
        | .function f => f.isStatic
        | .variable v => v.isStatic
      some (m.name, if isStatic then self else "this")

end Class

def Member.function? : Member → Option Function
  | .function f => some f
  | .variable _ => none

def Member.variable? : Member → Option Variable
  | .variable v => some v
  | .function _ => none

def Decl.members : Decl → List Member
  | .classDecl c => c.members
  | .interface i => i.members
  | .member m => [m]

def SourceFile.functionBodies (f : SourceFile) : List Body :=
  (f.decls.flatMap fun d => d.members.filterMap Member.function?).filterMap (·.body)

/-- The functions whose bodies are written for a declaration, constructors first. -/
def Decl.emittedFunctions : Decl → List Function
  | .classDecl c => c.constructor?.toList ++ c.ordinaryMembers.filterMap Member.function?
  | .interface _ => []
  | .member (.function f) => [f]
  | .member (.variable _) => []

def SourceFile.emittedFunctions (f : SourceFile) : List Function := f.decls.flatMap Decl.emittedFunctions

/-- The statements of function bodies, by the line of the function. -/
abbrev BodyTable := List (Nat × List Statement)

structure EmitContext where
  settings : Settings
  file : SourceFile
  unitName : Option Text
  /-- The qualified name of a type as it is written in the file. -/
  qualify : Text → Text
  bodies : BodyTable

namespace EmitContext

def buffer (c : EmitContext) : Buffer := { unit := c.settings.get "indent" }

def body (c : EmitContext) (f : Function) : List Statement := (c.bodies.lookup f.line).getD []

end EmitContext

def Text.addNew (xs : List Text) (x : Text) : List Text := if xs.contains x then xs else xs ++ [x]

end ScriptBuild
