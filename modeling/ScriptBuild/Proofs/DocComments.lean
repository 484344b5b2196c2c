import ScriptBuild.Proofs.EmissionParts

/-! Documentation comments in emitted files. -/

namespace ScriptBuild

open List

namespace Text

/-- What comes after the end of a comment, `star` telling whether the byte before is a star. -/
def closing? : Bool → Text → Option Text
  | _, [] => none
  | star, c :: s => if star && c == '/' then some s else closing? (c == '*') s

variable {star : Bool} {s t : Text}

theorem closing?_eq_none_iff : closing? star s = none ↔ (star → s.head? ≠ some '/'.toUInt8) ∧ ¬ "*/" <:+: s := by
  have mark : ("*/" : Text) = ['*'.toUInt8, '/'.toUInt8] := rfl
  induction s generalizing star with
  | nil => simp [closing?, mark]
  | cons c s ih =>
    have first : ['/'.toUInt8] <+: s ↔ s.head? = some '/'.toUInt8 := by cases s <;> simp [eq_comm]
    rw [closing?, mark, infix_cons_iff, cons_prefix_cons, first, not_or]
    by_cases ends : (star && c == '/') = true
    · obtain ⟨before, slash⟩ := Bool.and_eq_true_iff.mp ends
      rw [if_pos ends]
      exact iff_of_false (by simp) fun none => none.1 before (by simp [beq_iff_eq.mp slash])
    · have here : star → (c :: s).head? ≠ some '/'.toUInt8 := by simpa using ends
      rw [if_neg ends]
      refine ih.trans ?_
      rw [beq_iff_eq]
      constructor
      · rintro ⟨next, rest⟩
        exact ⟨here, fun both => next both.1.symm both.2, rest⟩
      · rintro ⟨_, apart, rest⟩
        exact ⟨fun same slash => apart ⟨same.symm, slash⟩, rest⟩

theorem closing?_append_mark (t : Text) :
    closing? star (s ++ ("*/" ++ t)) = some (((closing? star s).map (· ++ ("*/" ++ t))).getD t) := by
  induction s generalizing star with
  | nil => cases star <;> rfl
  | cons c s ih =>
    rw [cons_append, closing?, closing?]
    split
    · rfl
    · exact ih

/-- A byte that is not part of the mark keeps what is before it apart from what is after it. -/
theorem closing?_append_cons {c : UInt8} (plain : c ≠ '*' ∧ c ≠ '/') (t : Text) :
    closing? star (s ++ c :: t) = none ↔ closing? star s = none ∧ closing? false t = none := by
  induction s generalizing star with
  | nil => simp [closing?, plain, beq_false_of_ne plain.1]
  | cons b s ih =>
    rw [cons_append, closing?, closing?]
    split
    · simp
    · exact ih

theorem closing?_append_of_not_mem {pad : Text} (plain : '*'.toUInt8 ∉ pad) (s : Text) :
    closing? false (pad ++ s) = closing? false s := by
  induction pad with
  | nil => rfl
  | cons c pad ih =>
    obtain ⟨other, rest⟩ := not_or.mp (mt mem_cons.mpr plain)
    rw [cons_append, closing?, beq_false_of_ne (Ne.symm other)]
    exact ih rest

theorem indented_append_cons {pad : Text} {c : UInt8} (inline : c ≠ '\n') (t : Text) :
    ∀ start, indented pad start (s ++ c :: t) = indented pad start (s ++ [c]) ++ indented pad false t := by
  induction s with
  | nil => intro start; cases start <;> simp [indented, inline]
  | cons b s ih =>
    intro start
    simp only [cons_append, indented, ih]
    split
    · rfl
    · split <;> simp

/-- Without stars in the indentation there are no other ends of comments than without it. -/
theorem closing?_indented {pad : Text} (plain : '*'.toUInt8 ∉ pad) :
    ∀ {start : Bool}, (start → star = false) → (closing? star (indented pad start s) = none ↔ closing? star s = none) := by
  induction s generalizing star with
  | nil => exact fun _ => Iff.rfl
  | cons c s ih =>
    intro start fresh
    have step : ∀ more : Bool, (more → c = '\n') →
        (closing? star (c :: indented pad more s) = none ↔ closing? star (c :: s) = none) := by
      intro more line
      rw [closing?, closing?]
      split
      · simp
      · exact ih fun more => by rw [line more]; rfl
    rw [indented]
    split
    · rename_i line
      exact step true fun _ => beq_iff_eq.mp line
    · split
      · rename_i first
        have none : star = false := fresh first
        subst none
        rw [closing?_append_of_not_mem plain]
        exact step false (by simp)
      · exact step false (by simp)

/-- The first end of a comment is a certain one exactly if there is none before it. -/
theorem closing?_eq_some_iff : closing? star (s ++ ("*/" ++ t)) = some t ↔ closing? star s = none := by
  rw [closing?_append_mark, Option.some.injEq]
  cases closing? star s with
  | none => exact iff_of_true rfl rfl
  | some u =>
    refine iff_of_false (fun same => ?_) (by simp)
    have lengths := congrArg length same
    rw [Option.map_some, Option.getD_some, length_append, length_append, show length ("*/" : Text) = 2 from rfl] at lengths
    omega

end Text

open Text

/-- The lines of a comment with some texts: a single one if there is one text, or one for each text between the first
and the last one. -/
inductive IsComment : List Text → List Text → Prop where
  | short (s : Text) : IsComment [s] ["/** " ++ s ++ " */"]
  | long (texts : List Text) (mark : Text → Text) : (∀ s, mark s = " * " ++ s ∨ s = [] ∧ mark s = " *") →
      IsComment texts ([("/**" : Text)] ++ texts.map mark ++ [(" */" : Text)])

theorem IsComment.exists_inner {texts lines : List Text} (comment : IsComment texts lines) :
    ∃ inner, unlines lines = "/*" ++ (inner ++ " */\n") ∧
      (closing? false inner = none ↔ ∀ s ∈ texts, closing? false s = none) := by
  cases comment with
  | short s =>
    refine ⟨"* " ++ s, by simp [unlines, ofString], ?_⟩
    rw [forall_mem_singleton]
    rfl
  | long texts mark marked =>
    refine ⟨"*\n" ++ unlines (texts.map mark), ?_, ?_⟩
    · rw [unlines, flatMap_append]
      rfl
    have start : ∀ t, closing? false ("*\n" ++ t) = closing? false t := fun _ => rfl
    rw [start]
    induction texts with
    | nil => simp [unlines, closing?]
    | cons s texts ih =>
      have same : closing? false (mark s) = closing? false s := by
        rcases marked s with long | ⟨rfl, empty⟩
        · rw [long]
          rfl
        · rw [empty]
          rfl
      have line : unlines ((s :: texts).map mark) = mark s ++ '\n'.toUInt8 :: unlines (texts.map mark) := by
        simp only [unlines, map_cons, flatMap_cons, append_assoc]
        rfl
      rw [line, forall_mem_cons, ← same]
      exact (closing?_append_cons (by decide) _).trans (and_congr Iff.rfl ih)

/-- Lines of a text, each with an indentation before it, that begin a comment and should end it. -/
structure Text.CommentAt (s : Text) (lines : List Text) (inside after : Text) : Prop where
  place : ∃ before, s = before ++ ("/*" ++ (inside ++ ("*/" ++ after)))
  content : ∃ pad rest, after = "\n" ++ rest ∧ indented pad false (unlines lines) = "/*" ++ (inside ++ "*/\n")

/-- A comment that is written ends with its last line exactly if its texts have no end in them. -/
theorem Buffer.exists_commentAt {b later : Buffer} {texts lines : List Text} (comment : IsComment texts lines)
    (plain : '*'.toUInt8 ∉ b.unit) (more : (b.lines lines).text <+: later.text) :
    ∃ inside after, later.text.CommentAt lines inside after ∧
      (closing? false (inside ++ ("*/" ++ after)) = some after ↔ ∀ s ∈ texts, ¬ ("*/" : Text) <:+: s) := by
  obtain ⟨inner, whole, iff⟩ := comment.exists_inner
  obtain ⟨rest, same⟩ := more
  let pad := repeated b.depth b.unit
  have free : '*'.toUInt8 ∉ pad := by
    intro star
    obtain ⟨unit, mem, inside⟩ := mem_flatten.mp star
    exact plain ((mem_replicate.mp mem).2 ▸ inside)
  let inside := indented pad false (inner ++ " ")
  have body : indented pad false (inner ++ " */\n") = inside ++ "*/\n" := indented_append_cons (by decide) _ _
  have block : ∀ start, indented pad start ("/*" ++ (inner ++ " */\n")) =
      (if start then pad else []) ++ ("/*" ++ (inside ++ "*/\n")) := by
    intro start
    rw [← body]
    cases start
    · rfl
    · rfl
  refine ⟨inside, "\n" ++ rest, ⟨?_, pad, rest, rfl, ?_⟩, ?_⟩
  · rw [← same, lines_eq_write, text_write, whole, block]
    exact ⟨b.text ++ if b.atLineStart then pad else [], by simp [ofString]⟩
  · rw [whole, block]
    rfl
  · have opened : closing? false inside = none ↔ closing? false inner = none := by
      refine (closing?_indented free (by simp)).trans ((closing?_append_cons (by decide) []).trans ?_)
      exact and_iff_left rfl
    refine closing?_eq_some_iff.trans (opened.trans (iff.trans ?_))
    refine forall₂_congr fun s _ => closing?_eq_none_iff.trans ?_
    exact and_iff_right (by simp)

namespace Part

variable (style : ScriptStyle) (statements : Function → List Statement)

/-- Comments among the parts of a text. -/
theorem exists_commentAt {b : Buffer} {parts : List Part} {texts lines : List Text} (comment : IsComment texts lines)
    (plain : '*'.toUInt8 ∉ b.unit) (among : lines.map line <:+: parts) :
    ∃ inside after, (runAll style statements b parts).text.CommentAt lines inside after ∧
      (closing? false (inside ++ ("*/" ++ after)) = some after ↔ ∀ s ∈ texts, ¬ ("*/" : Text) <:+: s) := by
  obtain ⟨before, after, rfl⟩ := among
  obtain ⟨_, unit, _⟩ := runAll_keeps style statements before b
  refine Buffer.exists_commentAt comment (unit ▸ plain) ?_
  rw [runAll_append, runAll_append, runAll_lines]
  exact (runAll_keeps style statements after _).1

end Part

namespace JavaScript

variable (c : EmitContext)

def memberDoc : Member → List Text
  | .function f =>
    let result := if f.result.isEmpty then [] else [typeTag "return" (typeName c f.result)]
    docText f.doc ++ paramTags c f.params ++ result
  | .variable v =>
    let const : List Text := if v.isConst then ["@const"] else []
    docText v.doc ++ const ++ [typeTag "type" (typeName c v.type)]

/-- The texts of the comments of a declaration and its members. -/
def documentation : Decl → List (List Text)
  | .classDecl k =>
    classDoc c k (superclass c k) (constructorParams k) ::
      (instanceFields k).map (fun v => docText v.doc ++ [typeTag "type" (typeName c v.type)]) ++
      (k.ordinaryMembers.filter fun m => !isInstanceField m).map (memberDoc c)
  | .interface i =>
    (docText i.doc ++ [("@interface" : Text)] ++ i.parents.map fun x => typeTag "extends" (c.qualify x)) ::
      i.members.map (memberDoc c)
  | .member m => [memberDoc c m]

variable {c}

theorem isComment_docLines (enabled : c.settings.isSet "jsdoc") {texts : List Text} (filled : texts ≠ []) :
    IsComment texts (docLines c texts) := by
  rw [docLines, if_neg (by simp [enabled, filled])]
  refine .long texts _ fun s => ?_
  by_cases empty : s = [] <;> simp [empty]

theorem docParts_infix_memberParts (p : Place) (m : Member) : docParts c (memberDoc c m) <:+: memberParts c p m := by
  cases m <;> exact (prefix_append _ _).isInfix

theorem docParts_infix_members (p : Place) {ms : List Member} {m : Member} (mem : m ∈ ms) :
    docParts c (memberDoc c m) <:+: ms.flatMap fun m => Part.line [] :: memberParts c p m :=
  (docParts_infix_memberParts p m).trans ((suffix_cons (Part.line []) _).isInfix.trans
    (infix_of_mem_flatten (mem_map_of_mem mem)))

theorem docParts_infix_declarationParts (package : Text) {d : Decl} {texts : List Text}
    (documented : texts ∈ documentation c d) : docParts c texts <:+: declarationParts c package d := by
  cases d with
  | classDecl k =>
    rw [documentation, mem_append, mem_cons, mem_map, mem_map] at documented
    rw [declarationParts, classParts, append_assoc]
    rcases documented with (rfl | ⟨v, mem, rfl⟩) | ⟨m, mem, rfl⟩
    · refine infix_append_of_infix_left ?_
      iterate 6 refine infix_append_of_infix_left ?_
      exact infix_rfl
    · refine infix_append_of_infix_left ?_
      iterate 2 refine infix_append_of_infix_left ?_
      exact infix_append_of_infix_right ((prefix_append _ _).isInfix.trans
        (infix_of_mem_flatten (mem_map_of_mem mem)))
    · exact infix_append_of_infix_right (infix_append_of_infix_right (docParts_infix_members _ mem))
  | interface i =>
    rw [documentation, mem_cons, mem_map] at documented
    rcases documented with rfl | ⟨m, mem, rfl⟩
    · exact (prefix_append _ _).isInfix
    · exact infix_append_of_infix_right ((docParts_infix_members _ mem).trans (suffix_cons _ _).isInfix)
  | member m =>
    rw [mem_singleton.mp documented]
    exact docParts_infix_memberParts _ m

end JavaScript

namespace TypeScript

variable (c : EmitContext)

def memberDoc : Member → Text
  | .function f => f.doc
  | .variable v => v.doc

/-- The documentation of a declaration and its members. -/
def documentation : Decl → List Text
  | .classDecl k =>
    k.doc :: (k.members.filterMap Member.variable?).map (·.doc) ++ (Decl.classDecl k).emittedFunctions.map (·.doc)
  | .interface i => i.doc :: i.members.map memberDoc
  | .member m => [memberDoc m]

theorem isComment_docLines {text : Text} (filled : text ≠ []) : IsComment (split '\n' text) (docLines text) := by
  rw [docLines, if_neg (by simpa using filled)]
  rcases split '\n' text with _ | ⟨first, _ | ⟨second, rest⟩⟩
  · exact .long [] _ fun _ => .inl rfl
  · exact .short first
  · exact .long (first :: second :: rest) _ fun _ => .inl rfl

theorem docParts_infix_separatedParts {text : Text} {parts : List (List Part)}
    (documented : ∃ ps ∈ parts, docParts text <:+: ps) : ∀ first, docParts text <:+: separatedParts first parts := by
  obtain ⟨ps, mem, inside⟩ := documented
  induction parts with
  | nil => cases mem
  | cons first parts ih =>
    intro isFirst
    rcases mem_cons.mp mem with rfl | later
    · exact infix_append_of_infix_left (infix_append_of_infix_right inside)
    · exact infix_append_of_infix_right (ih later false)

theorem docParts_infix_declarationParts {d : Decl} {text : Text} (documented : text ∈ documentation d) :
    docParts text <:+: declarationParts c d := by
  cases d with
  | classDecl k =>
    rw [documentation, mem_append, mem_cons, mem_map, mem_map] at documented
    rcases documented with (rfl | ⟨v, mem, rfl⟩) | ⟨f, mem, rfl⟩
    · iterate 4 refine infix_append_of_infix_left ?_
      exact infix_rfl
    · refine infix_append_of_infix_left (infix_append_of_infix_left (infix_append_of_infix_right ?_))
      exact (infix_append_of_infix_left (prefix_append _ _).isInfix).trans (infix_of_mem_flatten (mem_map_of_mem mem))
    · refine infix_append_of_infix_left (infix_append_of_infix_right (docParts_infix_separatedParts ?_ _))
      rcases mem_append.mp mem with first | later
      · rw [functionsParts, if_pos (by simp [Option.mem_toList.mp first])]
        refine ⟨_, mem_append_left _ (mem_singleton_self _), ?_⟩
        iterate 6 refine infix_append_of_infix_left ?_
        exact infix_of_mem_flatten (mem_map_of_mem first)
      · exact ⟨_, mem_append_right _ (mem_map_of_mem later), infix_append_of_infix_left (prefix_append _ _).isInfix⟩
  | interface i =>
    rw [documentation, mem_cons, mem_map] at documented
    rcases documented with rfl | ⟨m, mem, rfl⟩
    · iterate 2 refine infix_append_of_infix_left ?_
      exact (prefix_append _ _).isInfix
    · refine infix_append_of_infix_left (infix_append_of_infix_right (IsInfix.trans ?_
        (infix_of_mem_flatten (mem_map_of_mem mem))))
      rcases m with f | v
      · exact infix_append_of_infix_left (prefix_append _ _).isInfix
      · exact (prefix_append _ _).isInfix
  | member m =>
    rw [mem_singleton.mp documented]
    cases m <;> exact infix_append_of_infix_left (prefix_append _ _).isInfix

end TypeScript

namespace EmitContext

variable (c : EmitContext)

/-- The texts of the comments that are written for a declaration and its members. -/
def comments (d : Decl) : List (List Text) :=
  match c.settings.backend with
  | .javascript => if c.settings.isSet "jsdoc" then (JavaScript.documentation c d).filter (· ≠ []) else []
  | .typescript => ((TypeScript.documentation d).filter (· ≠ [])).map (split '\n')

variable {c} {d : Decl} {texts : List Text}

theorem exists_parts (declared : d ∈ c.file.decls) (documented : texts ∈ c.comments d) :
    ∃ style parts lines, IsComment texts lines ∧ lines.map Part.line <:+: parts ∧
      Part.runAll style c.body c.buffer parts = emitFile c := by
  obtain ⟨p, package, mem⟩ : ∃ p, c.file.package = some p ∧ d ∈ p.decls := by
    unfold SourceFile.decls at declared
    split at declared
    · cases declared
    · exact ⟨_, ‹_›, declared⟩
  have among : ∀ {block : List Part} (front : List Part) {f : Decl → List Part}, block <:+: f d →
      block <:+: front ++ p.decls.flatMap fun d => .separate :: f d := fun front _ inside =>
    infix_append_of_infix_right (inside.trans
      ((suffix_cons _ _).isInfix.trans (infix_of_mem_flatten (mem_map_of_mem mem))))
  unfold comments at documented
  unfold emitFile
  cases backend : c.settings.backend with
  | javascript =>
    simp only [backend, mem_ite_nil_right, mem_filter, decide_eq_true_eq] at documented ⊢
    obtain ⟨enabled, inside, filled⟩ := documented
    refine ⟨_, _, _, JavaScript.isComment_docLines enabled filled, ?_, JavaScript.runAll_fileParts c⟩
    rw [JavaScript.fileParts, package]
    exact among _ (JavaScript.docParts_infix_declarationParts p.name inside)
  | typescript =>
    simp only [backend, mem_map, mem_filter, decide_eq_true_eq] at documented ⊢
    obtain ⟨text, ⟨inside, filled⟩, rfl⟩ := documented
    refine ⟨_, _, _, TypeScript.isComment_docLines filled, ?_, TypeScript.runAll_fileParts c⟩
    rw [TypeScript.fileParts, package]
    exact among _ (TypeScript.docParts_infix_declarationParts c inside)

/-- A comment of a declaration ends with its last line exactly if its texts have no end of a comment in them. -/
theorem closing?_emitFile_iff (plain : '*'.toUInt8 ∉ c.settings.get "indent") (declared : d ∈ c.file.decls)
    (documented : texts ∈ c.comments d) :
    ∃ lines inside after, IsComment texts lines ∧ (emitFile c).text.CommentAt lines inside after ∧
      (closing? false (inside ++ ("*/" ++ after)) = some after ↔ ∀ s ∈ texts, ¬ ("*/" : Text) <:+: s) := by
  obtain ⟨style, parts, lines, comment, among, whole⟩ := exists_parts declared documented
  obtain ⟨inside, after, there, iff⟩ := Part.exists_commentAt style c.body (b := c.buffer) comment plain among
  exact ⟨lines, inside, after, comment, whole ▸ there, iff⟩

/-- All options as they are if nothing is said. -/
def documentedContext (backend : Backend) (source : Text) : EmitContext :=
  { settings := ⟨backend, "/out", backend.defaults⟩
    file := (SourceFile.parse "/A.kn" source).1
    unitName := none
    qualify := id
    bodies := [] }

def halvesText : Text := "class A\n/// a * / b\n/// / c *\nvar x\nend\n"

def halvesClass : Class where
  line := 1
  name := "A"
  members := [.variable { line := 4, name := "x", type := [], doc := "a * / b\n/ c *" }]

/-- A comment within a class that has the halves of an end of a comment in it. -/
theorem closing?_emitFile_halves : ∃ lines inside after, IsComment ["a * / b", "/ c *"] lines ∧
    (emitFile (documentedContext .typescript halvesText)).text.CommentAt lines inside after ∧
      closing? false (inside ++ ("*/" ++ after)) = some after := by
  have declared : .classDecl halvesClass ∈ (documentedContext .typescript halvesText).file.decls := by
    have parsed : (documentedContext .typescript halvesText).file.decls = [.classDecl halvesClass] := by rfl
    rw [parsed]
    exact mem_cons_self
  have documented : [("a * / b" : Text), "/ c *"] ∈
      (documentedContext .typescript halvesText).comments (.classDecl halvesClass) := by decide +kernel
  obtain ⟨lines, inside, after, comment, place, iff⟩ := closing?_emitFile_iff (by decide +kernel) declared documented
  exact ⟨lines, inside, after, comment, place, iff.mpr (by decide +kernel)⟩

/-- The end of a comment in its text ends it. -/
theorem closing?_emitFile_endMark :
    (emitFile (documentedContext .typescript "/// a */ b\nvar x\n")).text =
        "/*" ++ ("* a */ b */\nexport let x: any;\n" : Text) ∧
      closing? false "* a */ b */\nexport let x: any;\n" = some " b */\nexport let x: any;\n" ∧
      (emitFile (documentedContext .javascript "/// a */ b\nvar x\n")).text =
        "goog.provide('x');\n\n/*" ++ ("*\n * a */ b\n * @type \x7b*\x7d\n */\nx;\n" : Text) ∧
      closing? false "*\n * a */ b\n * @type \x7b*\x7d\n */\nx;\n" = some " b\n * @type \x7b*\x7d\n */\nx;\n" := by
  decide +kernel

end EmitContext

end ScriptBuild
