import ScriptBuild.Text.Quoted
import ScriptBuild.Tree.Basic

/-! Tokens of the source language. -/

namespace ScriptBuild

open Text

inductive Symbol where
  | binary (op : BinaryOp)
  | bang
  | open
  | close
  | comma
  | dot
  | colon
  deriving DecidableEq

def Symbol.text : Symbol → Text
  | .binary op => op.text
  | .bang => "!"
  | .open => "("
  | .close => ")"
  | .comma => ","
  | .dot => "."
  | .colon => ":"

inductive Token where
  | name (text : Text)
  | number (text : Text)
  | string (value : Text)
  | symbol (s : Symbol)
  deriving DecidableEq

namespace Token

def text : Token → Text
  | .name t => t
  | .number t => t
  | .string v => v
  | .symbol s => s.text

/-- How a message names the token that was found, `none` being the end of the line. -/
def describe : Option Token → Text
  | none => "end of line"
  | some t => t.text.quote

inductive ReadError where
  | unterminatedString
  | unexpectedByte (b : UInt8)
  deriving DecidableEq

def ReadError.message : ReadError → Text
  | .unterminatedString => "unterminated string literal"
  | .unexpectedByte b => "unexpected character " ++ quoteRune b.toNat

/-- A letter among the code points below 256. -/
def isLetter (b : UInt8) : Bool :=
  isAlpha b || b == 0xAA || b == 0xB5 || b == 0xBA ||
  (0xC0 ≤ b && b ≠ 0xD7 && b ≠ 0xF7)

def startsName (b : UInt8) : Bool := b == '_' || b == '$' || isLetter b

def continuesName (b : UInt8) : Bool := startsName b || isDigit b

def continuesNumber (b : UInt8) : Bool := isDigit b || b == '.'

/-- What the bytes read since the last token belong to. Texts are collected in reverse. -/
inductive Mode where
  | between
  | string (quote : UInt8) (read : Text)
  | escape (quote : UInt8) (read : Text)
  | number (read : Text)
  | name (read : Text)
  /-- After a byte that is, or may become, the first of a symbol of two bytes. -/
  | half (first : UInt8)

structure Reader where
  mode : Mode := .between
  /-- The tokens read so far, the last one first. -/
  tokens : List Token := []

def singleSymbol? (b : UInt8) : Option Symbol :=
  match char b with
  | '+' => some (.binary .add)
  | '-' => some (.binary .sub)
  | '*' => some (.binary .mul)
  | '/' => some (.binary .div)
  | '%' => some (.binary .rem)
  | '(' => some .open
  | ')' => some .close
  | ',' => some .comma
  | '.' => some .dot
  | ':' => some .colon
  | _ => none

def startsPair (b : UInt8) : Bool :=
  b == '=' || b == '!' || b == '<' || b == '>' || b == '&' || b == '|'

def pairSymbol? (first second : UInt8) : Option Symbol :=
  match char first, char second with
  | '=', '=' => some (.binary .eq)
  | '!', '=' => some (.binary .ne)
  | '<', '=' => some (.binary .le)
  | '>', '=' => some (.binary .ge)
  | '&', '&' => some (.binary .and)
  | '|', '|' => some (.binary .or)
  | _, _ => none

/-- The symbol that the first byte of a pair is on its own. -/
def loneSymbol? (b : UInt8) : Option Symbol :=
  match char b with
  | '=' => some (.binary .assign)
  | '!' => some .bang
  | '<' => some (.binary .lt)
  | '>' => some (.binary .gt)
  | _ => none

def begin (tokens : List Token) (b : UInt8) : Except ReadError Reader :=
  if isBlankByte b then .ok ⟨.between, tokens⟩
  else if b == '"' || b == '\'' then .ok ⟨.string b [], tokens⟩
  else if isDigit b then .ok ⟨.number [b], tokens⟩
  else if startsName b then .ok ⟨.name [b], tokens⟩
  else if startsPair b then .ok ⟨.half b, tokens⟩
  else
    match singleSymbol? b with
    | some s => .ok ⟨.between, .symbol s :: tokens⟩
    | none => .error (.unexpectedByte b)

/-- The tokens once a token that needs no closing byte has ended. -/
def settle (r : Reader) : Except ReadError (List Token) :=
  match r.mode with
  | .between => .ok r.tokens
  | .number read => .ok (.number read.reverse :: r.tokens)
  | .name read => .ok (.name read.reverse :: r.tokens)
  | .half first =>
    match loneSymbol? first with
    | some s => .ok (.symbol s :: r.tokens)
    | none => .error (.unexpectedByte first)
  | .string _ _ | .escape _ _ => .error .unterminatedString

def step (r : Reader) (b : UInt8) : Except ReadError Reader :=
  match r.mode with
  | .string quote read =>
    if b == quote then .ok ⟨.between, .string read.reverse :: r.tokens⟩
    else if b == '\\' then .ok ⟨.escape quote read, r.tokens⟩
    else .ok ⟨.string quote (b :: read), r.tokens⟩
  | .escape quote read => .ok ⟨.string quote (b :: read), r.tokens⟩
  | .number read =>
    if continuesNumber b then .ok ⟨.number (b :: read), r.tokens⟩
    else (settle r).bind fun tokens => begin tokens b
  | .name read =>
    if continuesName b then .ok ⟨.name (b :: read), r.tokens⟩
    else (settle r).bind fun tokens => begin tokens b
  | .half first =>
    match pairSymbol? first b with
    | some s => .ok ⟨.between, .symbol s :: r.tokens⟩
    | none => (settle r).bind fun tokens => begin tokens b
  | .between => begin r.tokens b

def readAll (s : Text) : Except ReadError (List Token) :=
  ((s.foldlM step {}).bind settle).map List.reverse

end Token

end ScriptBuild
