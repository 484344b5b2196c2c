import ScriptBuild.Text.Basic

/-! A buffer that indents what is written into it. -/

namespace ScriptBuild

structure Buffer where
  /-- The bytes written, the last one first. -/
  reversed : Text := []
  depth : Nat := 0
  unit : Text
  atLineStart : Bool := true
  deriving DecidableEq

namespace Buffer

def text (b : Buffer) : Text := b.reversed.reverse

def size (b : Buffer) : Nat := b.reversed.length

/-- Appends one byte, after the indentation if it is the first of a line that is not empty. -/
def put (b : Buffer) (c : UInt8) : Buffer :=
  if c == '\n' then { b with reversed := c :: b.reversed, atLineStart := true }
  else if b.atLineStart then
    { b with
      reversed := c :: ((Text.repeated b.depth b.unit).reverse ++ b.reversed)
      atLineStart := false }
  else { b with reversed := c :: b.reversed }

def write (b : Buffer) (s : Text) : Buffer := s.foldl put b

def line (b : Buffer) (s : Text) : Buffer := b.write (s ++ "\n")

def newline (b : Buffer) : Buffer := b.write "\n"

def indent (b : Buffer) : Buffer := { b with depth := b.depth + 1 }

def dedent (b : Buffer) : Buffer := { b with depth := b.depth - 1 }

def lines (b : Buffer) (texts : List Text) : Buffer := texts.foldl line b

end Buffer

end ScriptBuild
