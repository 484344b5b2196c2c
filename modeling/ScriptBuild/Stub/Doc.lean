import ScriptBuild.Text.Rune

/-! Documentation comments of externs: a text, then tags with types. -/

namespace ScriptBuild

open Text

inductive EntryKind where
  | classType
  | interface
  | field
  | method
  | constant
  | function
  | typedef
  deriving DecidableEq

namespace EntryKind

def label : EntryKind → Text
  | .classType => "class"
  | .interface => "interface"
  | .field => "field"
  | .method => "method"
  | .constant => "constant"
  | .function => "function"
  | .typedef => "typedef"

def all : List EntryKind := [.classType, .interface, .field, .method, .constant, .function, .typedef]

def ofLabel? (s : Text) : Option EntryKind := all.find? fun k => k.label == s

def directory : EntryKind → Text
  | .classType => "classes"
  | .interface => "interfaces"
  | .function | .method => "functions"
  | .constant | .field => "constants"
  | .typedef => "typedefs"

end EntryKind

structure EntryParam where
  name : Text
  type : Text := []
  isOptional : Bool := false
  isRest : Bool := false
  deriving DecidableEq

structure Entry where
  kind : EntryKind
  /-- The type that a member belongs to; empty at top level. -/
  owner : Text := []
  /-- The simple name of a member, the qualified name of anything else. -/
  name : Text
  isStatic : Bool := false
  /-- The type of a field or constant, the result of a function, what a type definition stands for. -/
  type : Text := []
  params : List EntryParam := []
  doc : Text := []
  file : Text := []
  line : Nat := 0
  deriving DecidableEq

namespace Entry

def isMember (e : Entry) : Bool := !e.owner.isEmpty

def qualifiedName (e : Entry) : Text := if e.isMember then e.owner ++ "." ++ e.name else e.name

end Entry

def splitName (qname : Text) : Text × Text := (cutLast? "." qname).getD ([], qname)

structure ExternDoc where
  text : List Text := []
  isConstructor : Bool := false
  isInterface : Bool := false
  isConstant : Bool := false
  isTypedef : Bool := false
  superTypes : List Text := []
  interfaces : List Text := []
  params : List EntryParam := []
  result : Text := []
  type : Text := []

namespace ExternDoc

def bareLine (line : Text) : Text := trim (dropPrefix "*" (trim line))

/-- The text and the tags of a comment. A line after a tag that is no tag itself continues it. -/
structure Layout where
  /-- The last line first. -/
  text : List Text := []
  /-- The last tag first. -/
  tags : List Text := []

def Layout.step (l : Layout) (line : Text) : Layout :=
  if startsWith line "@" then { l with tags := line :: l.tags }
  else
    match l.tags with
    | tag :: tags => if line.isEmpty then l else { l with tags := (tag ++ " " ++ line) :: tags }
    | [] => if line.isEmpty && l.text.isEmpty then l else { l with text := line :: l.text }

def layout (comment : Text) : Layout :=
  ((split '\n' comment).map bareLine).foldl Layout.step {}

def closeBrace : Nat → Text → Option (Text × Text)
  | _, [] => none
  | depth, b :: s =>
    if b == '\x7d' && depth == 1 then some ([], s)
    else
      let depth := if b == '\x7b' then depth + 1 else if b == '\x7d' then depth - 1 else depth
      (closeBrace depth s).map fun (inner, rest) => (b :: inner, rest)

def typeAndRest (s : Text) : Text × Text :=
  match dropPrefix? "\x7b" s with
  | none => ([], s)
  | some inner =>
    match closeBrace 1 inner with
    | some (type, rest) => (trim type, trim rest)
    | none => (trim inner, [])

/-- The type of a tag, or its first word where none is given. -/
def typeOrWord (type rest : Text) : Text :=
  dropPrefix "!" (if type.isEmpty then (cut " " rest).1 else type)

def isSquareBracket (b : UInt8) : Bool := b == '[' || b == ']'

def param (type rest : Text) : EntryParam :=
  let name := (cut " " rest).1
  let isMarked := endsWith type "="
  let type := if isMarked then dropSuffix "=" type else type
  { name := trimBytes isSquareBracket name
    type := dropPrefix "..." type
    isOptional := startsWith name "[" || isMarked
    isRest := startsWith type "..." }

def addTag (d : ExternDoc) (tag : Text) : ExternDoc :=
  let (name, rest) := cut " " tag
  let (type, rest) := typeAndRest (trim rest)
  if name == "@constructor" then { d with isConstructor := true }
  else if name == "@interface" || name == "@record" then { d with isInterface := true }
  else if name == "@extends" then { d with superTypes := d.superTypes ++ [typeOrWord type rest] }
  else if name == "@implements" then
    { d with interfaces := d.interfaces ++ [typeOrWord type rest] }
  else if name == "@param" then { d with params := d.params ++ [param type rest] }
  else if name == "@return" || name == "@returns" then { d with result := type }
  else if name == "@type" then { d with type }
  else if name == "@const" || name == "@define" then
    { d with isConstant := true, type := if type.isEmpty then d.type else type }
  else if name == "@typedef" then { d with isTypedef := true, type }
  else d

def ofComment (comment : Text) : ExternDoc :=
  let l := layout comment
  l.tags.reverse.foldl addTag { text := (l.text.dropWhile List.isEmpty).reverse }

end ExternDoc

end ScriptBuild
