import ScriptBuild.Dictionary
import ScriptBuild.Number.Decimal
import ScriptBuild.Text.Quoted

/-! Flags of a command line. -/

namespace ScriptBuild

open Text

structure ListPlace where
  start : Nat
  line : Nat
  column : Nat

inductive ListFault where
  | bareQuote (place : ListPlace)
  | openQuote (place : ListPlace)
  | noFields

def ListPlace.text (p : ListPlace) : Text :=
  onlyIf (p.start != p.line) ("record on line " ++ ofNat p.start ++ "; ") ++ "parse error on line " ++
    ofNat p.line ++ ", column " ++ ofNat p.column

def ListFault.message : ListFault → Text
  | .bareQuote place => place.text ++ ": bare \" in non-quoted-field"
  | .openQuote place => place.text ++ ": extraneous or missing \" in quoted-field"
  | .noFields => "EOF"

namespace ListValue

/-- The lines of a text with their line feeds. A carriage return before a line feed or at the end of
the text is dropped. -/
def lines (s : Text) : List Text :=
  let parts := split 10 s
  let last := parts.getLastD []
  (parts.dropLast.map fun line => dropSuffix "\r" line ++ "\n") ++
    if last.isEmpty then [] else [dropSuffix "\r" last]

structure Cursor where
  place : ListPlace
  rest : Text
  later : List Text

namespace Cursor

def skip (c : Cursor) (n : Nat) : Cursor :=
  { c with place := { c.place with column := c.place.column + n }, rest := c.rest.drop n }

def nextLine (c : Cursor) : Cursor :=
  match c.later with
  | next :: later =>
    if next.isEmpty then c.skip c.rest.length
    else { place := { c.place with line := c.place.line + 1, column := 1 }, rest := next, later }
  | [] => c.skip c.rest.length

def endsLine (c : Cursor) : Bool := c.rest.isEmpty || c.rest == "\n"

end Cursor

def fields : Nat → Cursor → Except ListFault (List Text)
  | 0, _ => .ok []
  | fuel + 1, c =>
    if c.rest.head? == some 0x22 then quoted fuel [] (c.skip 1)
    else
      let field := c.rest.takeWhile fun (b : UInt8) => b != ','
      match indexOf? "\"" field with
      | some n => .error (.bareQuote (c.skip n).place)
      | none =>
        if field.length < c.rest.length then (fields fuel (c.skip (field.length + 1))).map fun more => field :: more
        else .ok [dropSuffix "\n" field]
where
  /-- The fields from a place inside quotes on; `value` is what was read of the first of them. -/
  quoted : Nat → Text → Cursor → Except ListFault (List Text)
    | 0, _, c => .error (.openQuote c.place)
    | fuel + 1, value, c =>
      match indexOf? "\"" c.rest with
      | none =>
        if c.rest.isEmpty then .error (.openQuote c.place) else quoted fuel (value ++ c.rest) c.nextLine
      | some n =>
        let value := value ++ c.rest.take n
        let closed := c.skip (n + 1)
        match closed.rest with
        | 0x22 :: _ => quoted fuel (value ++ "\"") (closed.skip 1)
        | 0x2C :: _ => (fields fuel (closed.skip 1)).map fun more => value :: more
        | _ => if closed.endsLine then .ok [value] else .error (.openQuote (c.skip n).place)

/-- The fields of the first line that is not empty; `line` is the number of the next one. -/
def firstFields (fuel : Nat) : Nat → List Text → Except ListFault (List Text)
  | _, [] => .error .noFields
  | line, s :: later =>
    if s.isEmpty || s == "\n" then firstFields fuel (line + 1) later else fields fuel ⟨⟨line, line, 1⟩, s, later⟩

def parse (s : Text) : Except ListFault (List Text) :=
  if s.isEmpty then .ok [] else firstFields (2 * s.length + 2) 1 (lines s)

end ListValue

inductive FlagType where
  | text
  | switch
  | integer
  /-- Values with commas between them. -/
  | list
  /-- Values as they stand. -/
  | texts
  deriving DecidableEq

structure Flag where
  name : Text
  letter : Option UInt8 := none
  type : FlagType := .text
  usage : Text
  /-- The value without the flag, if it is worth showing. -/
  default : Text := []

inductive FlagValue where
  | text (s : Text)
  | switch (b : Bool)
  | integer (n : Int)
  | list (items : List Text)

inductive FlagFault where
  | integer (value : Text) (fault : Integer.Fault)
  | switch (value : Text)
  | list (fault : ListFault)

inductive FlagError where
  | malformed (argument : Text)
  | unknown (name : Text)
  | unknownLetter (letter : UInt8) (group : Text)
  | noValue (name : Text)
  | invalid (flag : Flag) (value : Text) (fault : FlagFault)

def FlagFault.message : FlagFault → Text
  | .integer value fault => "strconv.ParseInt: parsing " ++ value.quote ++ ": " ++ fault.message
  | .switch value => "strconv.ParseBool: parsing " ++ value.quote ++ ": invalid syntax"
  | .list fault => fault.message

def Flag.shown (f : Flag) : Text :=
  match f.letter with
  | some letter => "-" ++ [letter] ++ ", --" ++ f.name
  | none => "--" ++ f.name

/-- The code point that stands for an unknown letter; one beyond ASCII is shown by the first byte of
its encoding. -/
def shownLetter (letter : UInt8) : Nat := ((ofRune letter.toNat).headD letter).toNat

def FlagError.message : FlagError → Text
  | .malformed argument => "bad flag syntax: " ++ argument
  | .unknown name => "unknown flag: --" ++ name
  | .unknownLetter letter group => "unknown shorthand flag: " ++ quoteRune (shownLetter letter) ++ " in -" ++ group
  | .noValue name => "flag needs an argument: --" ++ name
  | .invalid flag value fault =>
    "invalid argument " ++ value.quote ++ " for " ++ flag.shown.quote ++ " flag: " ++ fault.message

structure Invocation where
  values : Dictionary FlagValue := []
  arguments : List Text := []

namespace Invocation

def parseValue (f : Flag) (old : Option FlagValue) (value : Text) : Except FlagFault FlagValue :=
  let before : List Text :=
    match old with
    | some (.list items) => items
    | _ => []
  match f.type with
  | .text => .ok (.text value)
  | .switch =>
    match toBool? value with
    | some b => .ok (.switch b)
    | none => .error (.switch value)
  | .integer => ((Integer.parse value).map .integer).mapError (.integer value)
  | .list => ((ListValue.parse value).map fun items => .list (before ++ items)).mapError .list
  | .texts => .ok (.list (before ++ [value]))

def set (i : Invocation) (f : Flag) (value : Text) : Except FlagError Invocation := do
  let v ← (parseValue f (i.values.find? f.name) value).mapError (.invalid f value)
  return { i with values := i.values.insert f.name v }

def setLetters (flags : List Flag) : Text → Invocation → Except FlagError Invocation
  | [], i => .ok i
  | letter :: rest, i =>
    if startsWith (letter :: rest) "test." then .ok i
    else
      match flags.find? fun f => f.letter == some letter with
      | none => .error (.unknownLetter letter (letter :: rest))
      | some f =>
        if rest.head? == some 0x3D && rest.length > 1 then i.set f (rest.drop 1)
        else do setLetters flags rest (← i.set f "true")

/-- Sets a flag that is written out. `next` are the arguments after it, one of which may be its value. -/
def setLong (flags : List Flag) (argument : Text) (next : List Text) (i : Invocation) :
    Except FlagError (Invocation × List Text) := do
  let body := argument.drop 2
  if body.head? == some 0x2D || body.head? == some 0x3D then throw (.malformed argument)
  let (name, value) := cut "=" body
  let some f := flags.find? fun f => f.name == name | throw (.unknown name)
  if containsText body "=" then return (← i.set f value, next)
  if f.type == .switch then return (← i.set f "true", next)
  let value :: next := next | throw (.noValue name)
  return (← i.set f value, next)

def parseFrom (flags : List Flag) : Nat → List Text → Invocation → Except FlagError Invocation
  | 0, _, i => .ok i
  | _, [], i => .ok i
  | fuel + 1, s :: rest, i =>
    if s.head? != some 0x2D || s.length == 1 then
      parseFrom flags fuel rest { i with arguments := i.arguments ++ [s] }
    else if s == "--" then .ok { i with arguments := i.arguments ++ rest }
    else if startsWith s "--" then do
      let (i, rest) ← setLong flags s rest i
      parseFrom flags fuel rest i
    else do parseFrom flags fuel rest (← setLetters flags (s.drop 1) i)

def parse (flags : List Flag) (args : List Text) : Except FlagError Invocation :=
  parseFrom flags (args.length + 1) args {}

def text (i : Invocation) (name : Text) : Text :=
  match i.values.find? name with
  | some (.text s) => s
  | _ => []

def isOn (i : Invocation) (name : Text) : Bool :=
  match i.values.find? name with
  | some (.switch b) => b
  | _ => false

def list (i : Invocation) (name : Text) : List Text :=
  match i.values.find? name with
  | some (.list items) => items
  | _ => []

def isSet (i : Invocation) (name : Text) : Bool := (i.values.find? name).isSome

end Invocation

end ScriptBuild
