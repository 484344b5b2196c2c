import ScriptBuild.Source.Token

/-! Expressions from tokens, with operators grouped by precedence. -/

namespace ScriptBuild

open List

inductive ExprError where
  | token (e : Token.ReadError)
  | trailing (found : Option Token)
  | expectedSymbol (s : Symbol) (found : Option Token)
  | expectedMember (found : Option Token)
  | expectedSeparator (found : Option Token)
  | expectedTypeAfterNew (found : Option Token)
  | expectedType (found : Option Token)
  | unexpected (found : Option Token)
  deriving DecidableEq

def ExprError.message : ExprError → Text
  | .token e => e.message
  | .trailing found => "unexpected " ++ Token.describe found ++ " after expression"
  | .expectedSymbol s found => "expected " ++ s.text.quote ++ ", found " ++ Token.describe found
  | .expectedMember found => "expected member name, found " ++ Token.describe found
  | .expectedSeparator found => "expected \",\" or \")\", found " ++ Token.describe found
  | .expectedTypeAfterNew found => "expected type name after new, found " ++ Token.describe found
  | .expectedType found => "expected type name, found " ++ Token.describe found
  | .unexpected found => "unexpected " ++ Token.describe found

namespace Grammar

/-- A value read from tokens, with fewer than `n` tokens left. -/
structure Before (α : Type) (n : Nat) where
  value : α
  rest : List Token
  fewer : rest.length < n

/-- A value read from tokens, with at most `n` tokens left. -/
structure Within (α : Type) (n : Nat) where
  value : α
  rest : List Token
  noMore : rest.length ≤ n

def binaryOp? : Option Token → Option BinaryOp
  | some (.symbol (.binary op)) => some op
  | _ => none

def unaryOp? : Option Token → Option UnaryOp
  | some (.symbol (.binary .sub)) => some .neg
  | some (.symbol .bang) => some .not
  | _ => none

def ofName (line : Nat) (name : Text) : Expr :=
  if name == "true" || name == "false" then .literal line .bool name
  else if name == "null" then .literal line .null name
  else .ident line name

/-- The rest of a type name: parts joined by `.` or `:`. -/
def typeName (type : Text) : (ts : List Token) → Except ExprError (Within Text ts.length)
  | .symbol s :: .name part :: rest =>
    if s == .dot || s == .colon then
      match typeName (type ++ s.text ++ part) rest with
      | .ok ⟨x, left, h⟩ => .ok ⟨x, left, by simp only [length_cons]; omega⟩
      | .error e => .error e
    else .ok ⟨type, .symbol s :: .name part :: rest, Nat.le_refl _⟩
  | .symbol s :: rest =>
    if s == .dot || s == .colon then .error (.expectedType rest.head?)
    else .ok ⟨type, .symbol s :: rest, Nat.le_refl _⟩
  | ts => .ok ⟨type, ts, Nat.le_refl _⟩

mutual

/-- An expression whose binary operators all have precedence `least` or greater. -/
def binary (line : Nat) (least : Nat) (ts : List Token) : Except ExprError (Before Expr ts.length) :=
  match unary line ts with
  | .error e => .error e
  | .ok ⟨x, rest, h⟩ =>
    match binaryFrom line least x rest with
    | .error e => .error e
    | .ok ⟨x, left, h'⟩ => .ok ⟨x, left, by omega⟩
termination_by 8 * ts.length + 5

def binaryFrom (line : Nat) (least : Nat) (x : Expr) (ts : List Token) : Except ExprError (Within Expr ts.length) :=
  match ts with
  | [] => .ok ⟨x, [], Nat.le_refl _⟩
  | t :: rest =>
    match binaryOp? (some t) with
    | none => .ok ⟨x, t :: rest, Nat.le_refl _⟩
    | some op =>
      if op.precedence < least then .ok ⟨x, t :: rest, Nat.le_refl _⟩
      else
        match binary line (if op.groupsRight then op.precedence else op.precedence + 1) rest with
        | .error e => .error e
        | .ok ⟨y, left, h⟩ =>
          match binaryFrom line least (.binary line op x y) left with
          | .error e => .error e
          | .ok ⟨x, left, h'⟩ => .ok ⟨x, left, by simp only [length_cons] at *; omega⟩
termination_by 8 * ts.length
decreasing_by all_goals (simp only [length_cons] at *; omega)

def unary (line : Nat) (ts : List Token) : Except ExprError (Before Expr ts.length) :=
  match ts with
  | [] => .error (.unexpected none)
  | t :: rest =>
    match unaryOp? (some t) with
    | some op =>
      match unary line rest with
      | .error e => .error e
      | .ok ⟨x, left, h⟩ =>
        .ok ⟨.unary line op x, left, by simp only [length_cons] at *; omega⟩
    | none =>
      match primary line (t :: rest) with
      | .error e => .error e
      | .ok ⟨x, left, h⟩ =>
        match suffixes line x left with
        | .error e => .error e
        | .ok ⟨x, left, h'⟩ => .ok ⟨x, left, by simp only [length_cons] at *; omega⟩
termination_by 8 * ts.length + 3
decreasing_by all_goals (simp only [length_cons] at *; omega)

def suffixes (line : Nat) (x : Expr) (ts : List Token) : Except ExprError (Within Expr ts.length) :=
  match ts with
  | .symbol .dot :: .name name :: rest =>
    match suffixes line (.member line x name) rest with
    | .error e => .error e
    | .ok ⟨x, left, h⟩ => .ok ⟨x, left, by simp only [length_cons] at *; omega⟩
  | .symbol .dot :: rest => .error (.expectedMember rest.head?)
  | .symbol .open :: rest =>
    match arguments line rest with
    | .error e => .error e
    | .ok ⟨args, left, h⟩ =>
      match suffixes line (.call line x args) left with
      | .error e => .error e
      | .ok ⟨x, left, h'⟩ => .ok ⟨x, left, by simp only [length_cons] at *; omega⟩
  | ts => .ok ⟨x, ts, Nat.le_refl _⟩
termination_by 8 * ts.length
decreasing_by all_goals (simp only [length_cons] at *; omega)

def arguments (line : Nat) (ts : List Token) : Except ExprError (Before (List Expr) ts.length) :=
  match ts with
  | .symbol .close :: rest => .ok ⟨[], rest, by simp⟩
  | ts => argumentsFrom line ts
termination_by 8 * ts.length + 7

def argumentsFrom (line : Nat) (ts : List Token) : Except ExprError (Before (List Expr) ts.length) :=
  match binary line 1 ts with
  | .error e => .error e
  | .ok ⟨x, rest, h⟩ =>
    match rest, h with
    | .symbol .close :: left, h => .ok ⟨[x], left, by simp only [length_cons] at *; omega⟩
    | .symbol .comma :: left, h =>
      match argumentsFrom line left with
      | .error e => .error e
      | .ok ⟨xs, left, h'⟩ => .ok ⟨x :: xs, left, by simp only [length_cons] at *; omega⟩
    | rest, _ => .error (.expectedSeparator rest.head?)
termination_by 8 * ts.length + 6
decreasing_by
  · omega
  · simp only [length_cons] at *; omega

def primary (line : Nat) (ts : List Token) : Except ExprError (Before Expr ts.length) :=
  match ts with
  | [] => .error (.unexpected none)
  | .number text :: rest => .ok ⟨.literal line .number text, rest, by simp⟩
  | .string value :: rest => .ok ⟨.literal line .string value, rest, by simp⟩
  | .name name :: rest =>
    if name == "new" then
      match creation line rest with
      | .error e => .error e
      | .ok ⟨x, left, h⟩ => .ok ⟨x, left, by simp only [length_cons] at *; omega⟩
    else .ok ⟨ofName line name, rest, by simp⟩
  | .symbol .open :: rest =>
    match binary line 1 rest with
    | .error e => .error e
    | .ok ⟨x, left, h⟩ =>
      match left, h with
      | .symbol .close :: left, h => .ok ⟨x, left, by simp only [length_cons] at *; omega⟩
      | left, _ => .error (.expectedSymbol .close left.head?)
  | .symbol s :: _ => .error (.unexpected (some (.symbol s)))
termination_by 8 * ts.length + 2
decreasing_by all_goals (simp only [length_cons] at *; omega)

/-- What follows `new`: a type name and, perhaps, arguments. -/
def creation (line : Nat) (ts : List Token) : Except ExprError (Before Expr ts.length) :=
  match ts with
  | .name part :: rest =>
    match typeName part rest with
    | .error e => .error e
    | .ok ⟨type, left, h⟩ =>
      match left, h with
      | .symbol .open :: left, h =>
        match arguments line left with
        | .error e => .error e
        | .ok ⟨args, left, h'⟩ =>
          .ok ⟨.create line type args, left, by simp only [length_cons] at *; omega⟩
      | left, h => .ok ⟨.create line type [], left, by simp only [length_cons] at *; omega⟩
  | ts => .error (.expectedTypeAfterNew ts.head?)
termination_by 8 * ts.length + 1
decreasing_by all_goals (simp only [length_cons] at *; omega)

end

end Grammar

def Expr.ofTokens (line : Nat) (ts : List Token) : Except ExprError Expr :=
  match Grammar.binary line 1 ts with
  | .error e => .error e
  | .ok r => if r.rest.isEmpty then .ok r.value else .error (.trailing r.rest.head?)

def Expr.parse (line : Nat) (s : Text) : Except ExprError Expr :=
  match Token.readAll s with
  | .error e => .error (.token e)
  | .ok ts => Expr.ofTokens line ts

end ScriptBuild
