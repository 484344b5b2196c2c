import ScriptBuild.Emit.Buffer
import ScriptBuild.Text.Quoted
import ScriptBuild.Tree.Basic

/-! Expressions and statements as text of the target languages. -/

namespace ScriptBuild

structure Scope where
  /-- What the members of the class are reached through; the last entry for a name counts. -/
  members : List (Text × Text) := []
  locals : List Text := []

namespace Scope

def name (s : Scope) (n : Text) : Text :=
  if s.locals.contains n then n
  else
    match s.members.reverse.lookup n with
    | some qualifier => qualifier ++ "." ++ n
    | none => n

def declare (s : Scope) (n : Text) : Scope := { s with locals := n :: s.locals }

def enter (s : Scope) (params : List Param) : Scope := { s with locals := params.map (·.name) }

end Scope

/-- What a target language has of its own in statements and expressions. -/
structure ScriptStyle where
  declareLocal : Variable → Text
  /-- A type, as it is written in the file, after `new`. -/
  createdType : Text → Text

/-- Equality is strict in the target languages. -/
def BinaryOp.scriptText : BinaryOp → Text
  | .eq => "==="
  | .ne => "!=="
  | op => op.text

namespace Expr

/-- Whether an operand of an operator of precedence `parent` needs parentheses: when it binds
looser, or equally on the side where grouping would change. -/
def needsParens (parent : Nat) (onTie : Bool) : Expr → Bool
  | .binary _ op _ _ => op.precedence < parent || (op.precedence == parent && onTie)
  | _ => false

def isBinary : Expr → Bool
  | .binary _ _ _ _ => true
  | _ => false

def inParens (b : Bool) (s : Text) : Text := if b then "(" ++ s ++ ")" else s

mutual

def script (style : ScriptStyle) (scope : Scope) : Expr → Text
  | .ident _ name => scope.name name
  | .literal _ kind value => if kind == .string then Text.quote value else value
  | .binary _ op x y =>
    inParens (needsParens op.precedence op.groupsRight x) (script style scope x) ++ " " ++ op.scriptText ++ " " ++
      inParens (needsParens op.precedence (!op.groupsRight) y) (script style scope y)
  | .unary _ op x => op.text ++ inParens (isBinary x) (script style scope x)
  | .call _ f args => script style scope f ++ "(" ++ scriptArgs style scope args ++ ")"
  | .member _ x name => script style scope x ++ "." ++ name
  | .create _ type args =>
    "new " ++ style.createdType type ++ "(" ++ scriptArgs style scope args ++ ")"

def scriptArgs (style : ScriptStyle) (scope : Scope) : List Expr → Text
  | [] => []
  | [x] => script style scope x
  | x :: xs => script style scope x ++ ", " ++ scriptArgs style scope xs

end

end Expr

namespace Statement

mutual

/-- Writes a statement. A declaration adds its name to the scope of what follows. -/
def emit (style : ScriptStyle) : Statement → Scope × Buffer → Scope × Buffer
  | .variable _ v, (scope, b) =>
    let init : Text :=
      match v.init with
      | some x => " = " ++ x.script style scope
      | none => []
    (scope.declare v.name, b.line (style.declareLocal v ++ init ++ ";"))
  | .expression _ x, (scope, b) => (scope, b.line (x.script style scope ++ ";"))
  | .result _ none, (scope, b) => (scope, b.line "return;")
  | .result _ (some x), (scope, b) => (scope, b.line ("return " ++ x.script style scope ++ ";"))
  | .ifThen _ condition yes, (scope, b) =>
    let b := b.line ("if (" ++ condition.script style scope ++ ") \x7b")
    let (scope, b) := emitAll style yes (scope, b.indent)
    (scope, b.dedent.line "\x7d")
  | .ifThenElse _ condition yes no, (scope, b) =>
    let b := b.line ("if (" ++ condition.script style scope ++ ") \x7b")
    let (scope, b) := emitAll style yes (scope, b.indent)
    let (scope, b) := emitAll style no (scope, (b.dedent.line "\x7d else \x7b").indent)
    (scope, b.dedent.line "\x7d")
  | .loop _ condition body, (scope, b) =>
    let b := b.line ("while (" ++ condition.script style scope ++ ") \x7b")
    let (scope, b) := emitAll style body (scope, b.indent)
    (scope, b.dedent.line "\x7d")

def emitAll (style : ScriptStyle) : List Statement → Scope × Buffer → Scope × Buffer
  | [], s => s
  | x :: xs, s => emitAll style xs (emit style x s)

end

def emitBody (style : ScriptStyle) (scope : Scope) (b : Buffer) (body : List Statement) : Buffer :=
  (emitAll style body (scope, b)).2

end Statement

end ScriptBuild
