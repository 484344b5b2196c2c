import ScriptBuild.Build.Run

/-! Lines of emitted files. -/

namespace ScriptBuild

open List Text

variable {p : Package}

def Text.unlines (texts : List Text) : Text := texts.flatMap fun s => s ++ "\n"

/-- A text as it is written with an indentation; `start` tells whether it begins a line. -/
def Text.indented (pad : Text) : Bool → Text → Text
  | _, [] => []
  | start, c :: s =>
    if c == '\n' then c :: indented pad true s
    else if start then pad ++ c :: indented pad false s else c :: indented pad false s

theorem Text.indented_nil (start : Bool) (s : Text) : indented [] start s = s := by
  induction s generalizing start with
  | nil => rfl
  | cons c s ih => simp [indented, ih]

namespace Buffer

variable {b middle later : Buffer}

/-- A buffer into which more was written, with as many open blocks as before. -/
structure Extends (b later : Buffer) : Prop where
  text : b.text <+: later.text
  depth : later.depth = b.depth
  unit : later.unit = b.unit

theorem Extends.refl (b : Buffer) : b.Extends b := ⟨prefix_refl _, rfl, rfl⟩

theorem Extends.trans (first : b.Extends middle) (second : middle.Extends later) : b.Extends later :=
  ⟨first.text.trans second.text, second.depth.trans first.depth, second.unit.trans first.unit⟩

theorem extends_put (b : Buffer) (c : UInt8) : b.Extends (b.put c) := by
  unfold put
  split
  · exact ⟨by simp [text], rfl, rfl⟩
  · split <;> exact ⟨by simp [text], rfl, rfl⟩

theorem extends_foldl {α : Type} {step : Buffer → α → Buffer} (each : ∀ (b : Buffer) x, b.Extends (step b x))
    (xs : List α) : ∀ b : Buffer, b.Extends (xs.foldl step b) := by
  induction xs with
  | nil => exact .refl
  | cons x xs ih => exact fun b => (each b x).trans (ih (step b x))

theorem extends_write (b : Buffer) (s : Text) : b.Extends (b.write s) := extends_foldl extends_put s b

namespace Extends

theorem line (more : b.Extends later) (s : Text) : b.Extends (later.line s) := more.trans (later.extends_write _)

theorem block (more : b.Extends middle) (inside : middle.indent.Extends later) : b.Extends later.dedent := by
  refine more.trans ⟨inside.text, ?_, inside.unit⟩
  rw [dedent, inside.depth, indent, Nat.add_sub_cancel]

end Extends

def separate (b : Buffer) : Buffer := if b.size > 0 then b.newline else b

theorem extends_separate (b : Buffer) : b.Extends b.separate := by
  unfold separate
  split
  · exact b.extends_write _
  · exact .refl b

theorem write_append (b : Buffer) (s t : Text) : b.write (s ++ t) = (b.write s).write t := foldl_append

theorem text_write (b : Buffer) (s : Text) :
    (b.write s).text = b.text ++ indented (repeated b.depth b.unit) b.atLineStart s := by
  induction s generalizing b with
  | nil => simp [write, indented]
  | cons c s ih =>
    rw [show b.write (c :: s) = (b.put c).write s from rfl, ih, put, indented]
    split
    · simp [text]
    · split
      · simp [text]
      · rename_i inside
        simp [text, inside]

theorem write_of_flat (flat : b.depth = 0) (s : Text) : (b.write s).text = b.text ++ s := by
  rw [text_write, flat]
  exact congrArg (b.text ++ ·) (indented_nil _ _)

theorem lines_eq_write (b : Buffer) (texts : List Text) : b.lines texts = b.write (unlines texts) := by
  induction texts generalizing b with
  | nil => rfl
  | cons s texts ih =>
    rw [show b.lines (s :: texts) = (b.line s).lines texts from rfl, ih,
      show unlines (s :: texts) = (s ++ "\n") ++ unlines texts from flatMap_cons, write_append]
    rfl

theorem lines_append (b : Buffer) (texts more : List Text) : b.lines (texts ++ more) = (b.lines texts).lines more :=
  foldl_append

def Shows (b : Buffer) (s : Text) : Prop := s ++ ("\n" : Text) <:+: b.text

theorem shows_line (flat : b.depth = 0) (s : Text) : (b.line s).Shows s := by
  rw [Shows, line, write_of_flat flat]
  exact (suffix_append _ _).isInfix

end Buffer

namespace Statement

open Buffer

mutual

theorem extends_emit (style : ScriptStyle) : ∀ (x : Statement) (s : Scope × Buffer), s.2.Extends (emit style x s).2
  | .variable _ v, (_, b) => (Extends.refl b).line _
  | .expression _ x, (_, b) => (Extends.refl b).line _
  | .result _ none, (_, b) => (Extends.refl b).line _
  | .result _ (some x), (_, b) => (Extends.refl b).line _
  | .ifThen _ condition yes, (scope, b) => by
    exact (((Extends.refl b).line _).block (extends_emitAll style yes (scope, (b.line _).indent))).line _
  | .ifThenElse _ condition yes no, (scope, b) => by
    rw [emit]
    have first := extends_emitAll style yes
      (scope, (b.line ("if (" ++ condition.script style scope ++ ") \x7b")).indent)
    generalize emitAll style yes _ = written at first ⊢
    have second := extends_emitAll style no (written.1, (written.2.dedent.line "\x7d else \x7b").indent)
    exact (((((Extends.refl b).line _).block first).line _).block second).line _
  | .loop _ condition body, (scope, b) => by
    exact (((Extends.refl b).line _).block (extends_emitAll style body (scope, (b.line _).indent))).line _

theorem extends_emitAll (style : ScriptStyle) : ∀ (xs : List Statement) (s : Scope × Buffer),
    s.2.Extends (emitAll style xs s).2
  | [], s => .refl s.2
  | x :: xs, s => (extends_emit style x s).trans (extends_emitAll style xs _)

end

end Statement

namespace JavaScript

open Buffer

variable (c : EmitContext) (b : Buffer)

def superclass (k : Class) : Text := if k.superclass.isEmpty then [] else c.qualify k.superclass

def constructorParams (k : Class) : List Param := (k.constructor?.map (·.params)).getD []

def inheritsLine (qname parent : Text) : Text := "goog.inherits(" ++ qname ++ ", " ++ parent ++ ");"

def docLines (lines : List Text) : List Text :=
  if !c.settings.isSet "jsdoc" || lines.isEmpty then []
  else
    [("/**" : Text)] ++ lines.map (fun (l : Text) => if l.isEmpty then (" *" : Text) else " * " ++ l) ++
      [(" */" : Text)]

theorem doc_eq_lines (lines : List Text) : doc c b lines = b.lines (docLines c lines) := by
  unfold doc docLines
  split
  · rfl
  · rw [lines_append]
    rfl

def provideLine (q : Text) : Text := "goog.provide('" ++ q ++ "');"

def requireLine (q : Text) : Text := "goog.require('" ++ q ++ "');"

def nameLines (p : Package) : List Text :=
  if !c.settings.isSet "closure_provides" then []
  else
    (provides p).map provideLine ++
      if (requires c (provides p)).isEmpty then [] else [] :: (requires c (provides p)).map requireLine

theorem package_eq_foldl (p : Package) :
    package c b p = p.decls.foldl (fun b d => declaration c p.name b.separate d) (b.lines (nameLines c p)) := by
  unfold package nameLines
  dsimp only
  congr 1
  split
  · rfl
  · rw [lines_append]
    split <;> rfl

/-- The lines before the declarations of a file: where it comes from, and what it provides and requires. -/
def head (p : Package) : List Text :=
  docLines c (c.unitName.toList.map fun name => tag "fileoverview" ("Generated from " ++ name ++ ".")) ++ nameLines c p

theorem file_eq_foldl (has : c.file.package = some p) :
    file c = p.decls.foldl (fun b d => declaration c p.name b.separate d) (c.buffer.lines (head c p)) := by
  simp [file, has, head, lines_append, doc_eq_lines, package_eq_foldl]

/-- A line in which a declaration of a package calls its parent `name` by a word. -/
inductive ParentLine (package name word : Text) : Decl → Text → Prop where
  | inherited {k : Class} (parent : k.superclass = name) :
    ParentLine package name word (.classDecl k) (inheritsLine (joinName package k.name) word)
  | superclass {k : Class} (documented : c.settings.isSet "jsdoc") (parent : k.superclass = name) :
    ParentLine package name word (.classDecl k) (" * " ++ typeTag "extends" word)
  | implemented {k : Class} (documented : c.settings.isSet "jsdoc") (parent : name ∈ k.interfaces) :
    ParentLine package name word (.classDecl k) (" * " ++ typeTag "implements" word)
  | extended {i : Interface} (documented : c.settings.isSet "jsdoc") (parent : name ∈ i.parents) :
    ParentLine package name word (.interface i) (" * " ++ typeTag "extends" word)

end JavaScript

namespace TypeScript

open Buffer

variable (c : EmitContext) (b : Buffer)

def clause (word : Text → Text) (keyword : Text) (parents : List Text) : Text :=
  if parents.isEmpty then [] else keyword ++ Text.join ", " (parents.map word)

def classHeader (word : Text → Text) (k : Class) : Text :=
  let superclass : Text := if k.superclass.isEmpty then [] else " extends " ++ word k.superclass
  exported c ("class " ++ k.name) ++ superclass ++ clause word " implements " k.interfaces ++ " \x7b"

def interfaceHeader (word : Text → Text) (i : Interface) : Text :=
  exported c ("interface " ++ i.name) ++ clause word " extends " i.parents ++ " \x7b"

/-- The line that opens a type whose parents are called by words. -/
def header (word : Text → Text) : Decl → Option Text
  | .classDecl k => some (classHeader c word k)
  | .interface i => some (interfaceHeader c word i)
  | .member _ => none

/-- The lines before the declarations of a module: where it comes from, and what it imports. -/
def head (p : Package) : List Text :=
  (c.unitName.toList.map fun (name : Text) => ("// Generated from " : Text) ++ name ++ ".") ++
    (imports c p).map (importLine p.name)

theorem file_eq_foldl (has : c.file.package = some p) :
    file c = p.decls.foldl (fun b d => declaration c b.separate d) (c.buffer.lines (head c p)) := by
  simp only [file, has, head, lines_append]
  rfl

end TypeScript

end ScriptBuild
