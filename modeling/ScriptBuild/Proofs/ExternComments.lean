import ScriptBuild.Proofs.ModuleNames
import ScriptBuild.Stub.Statement

/-!
Comments in externs files. Between statements a comment is passed over, except that the mark `/**/` leaves one open.
Inside a statement the text of a comment counts like any other: brackets, quotes and semicolons in it can move the end.
-/

namespace ScriptBuild

open List Text ExternStatement

theorem Text.startsWith_append_cons {b : UInt8} {p : Text} (absent : b ∉ p) (x y : Text) :
    startsWith (y ++ b :: x) p = startsWith y p := by
  induction p generalizing y with
  | nil => rfl
  | cons a p ih =>
    rw [mem_cons, not_or] at absent
    cases y with
    | nil => simp [startsWith, Text.dropPrefix?, Ne.symm absent.1]
    | cons c y =>
      simp only [cons_append, startsWith, Text.dropPrefix?]
      split
      · exact ih absent.2 y
      · rfl

namespace ExternStatement

def texts (source : Text) : List Text := (externStatements source).map (·.text)

/-- What the scan goes on with after an opening mark and `inner`. -/
def afterComment (inner : Text) : Text := (comment ((Text.dropPrefix? "*" inner).getD inner)).2

def start (s : Text) : Place := { isFunction := startsWith s "function " }

def isBlank (b : UInt8) : Bool := b == '\n' || (b == ' ' || b == '\t' || b == '\r')

/-- One move of the scan: the text of the statement that it finds, if any, and the rest. -/
def move : Text → List Text × Text
  | [] => ([], [])
  | b :: s =>
    if isBlank b then ([], s)
    else
      match Text.dropPrefix? "/*" (b :: s) with
      | some inner => ([], afterComment inner)
      | none =>
        if startsWith (b :: s) "//" then ([], (cut "\n" (b :: s)).2)
        else ([trim (take (start (b :: s)) (b :: s)).1], (take (start (b :: s)) (b :: s)).2)

/-- How a scan comes from one text to the rest of it, with the texts of the statements that it finds on the way. -/
inductive Passes : Text → List Text → Text → Prop
  | here {s : Text} : Passes s [] s
  | move {s rest later : Text} {first found : List Text} (filled : s ≠ []) (moved : move s = (first, later))
      (more : Passes later found rest) : Passes s (first ++ found) rest

variable {s rest : Text} {found more : List Text}

theorem Passes.trans (first : Passes s found rest) {last : Text} (second : Passes rest more last) :
    Passes s (found ++ more) last := by
  induction first with
  | here => exact second
  | move filled moved _ ih =>
    rw [append_assoc]
    exact .move filled moved (ih second)

theorem Passes.eq_of_nil (first : Passes s found []) (second : Passes s more []) : found = more := by
  generalize ended : ([] : Text) = rest at first
  induction first generalizing more with
  | here =>
    subst ended
    cases second with
    | here => rfl
    | move filled => exact absurd rfl filled
  | move filled moved _ ih =>
    cases second with
    | here => exact absurd rfl filled
    | move _ same later =>
      obtain ⟨rfl, rfl⟩ := Prod.mk.inj (moved.symm.trans same)
      rw [ih later ended]

theorem Passes.quiet {b : UInt8} {later : Text} (moved : ExternStatement.move (b :: s) = ([], later))
    (passes : Passes later found rest) : Passes (b :: s) found rest :=
  .move (cons_ne_nil b s) moved passes

theorem passes_scan (doc : Text) (line : Nat) (s : Text) : Passes s ((scan doc line s).map (·.text)) [] := by
  fun_induction scan doc line s with
  | case1 => exact .here
  | case6 => exact .quiet (by simp_all [ExternStatement.move, isBlank, cut]) .here
  | case8 _ _ b rest newline blank found opens place ih =>
    have moved : move (b :: rest) =
        ([trim (take place (b :: rest)).1], (take place (b :: rest)).2) := by
      simp [move, isBlank, newline, blank, found, opens, start, place]
    exact .move (cons_ne_nil b rest) moved ih
  | _ =>
    refine .quiet ?_ ‹_›
    simp_all [move, isBlank, cut, afterComment]

theorem Passes.texts_eq (passes : Passes s found rest) : texts s = found ++ texts rest :=
  (passes_scan [] 1 s).eq_of_nil (passes.trans (passes_scan [] 1 rest))

theorem comment_cons {b : UInt8} (other : Text.dropPrefix? "*/" (b :: s) = none) :
    (comment (b :: s)).2 = (comment s).2 := by
  rw [comment, cut?, other, comment]
  cases cut? "*/" s <;> rfl

theorem comment_snd_eq_iff : (comment s).2 = s ↔ s = [] := by
  rw [comment]
  cases found : cut? "*/" s with
  | none => exact eq_comm
  | some parts =>
    have total := cut?_length found
    have mark : (ofString "*/").length = 2 := rfl
    refine ⟨fun same => ?_, ?_⟩
    · have shorter := congrArg length same
      rw [Option.getD_some] at shorter
      omega
    · rintro rfl
      cases found

/-- A comment ends at the first closing mark after the opening one, unless both share their star. -/
theorem afterComment_eq_iff {inner : Text} :
    afterComment inner = (comment inner).2 ↔ (("*/" : Text) <+: inner → inner = "*/") := by
  rw [afterComment]
  cases found : Text.dropPrefix? "*" inner with
  | none =>
    refine iff_of_true rfl ?_
    rintro ⟨after, rfl⟩
    cases found
  | some body =>
    obtain rfl := append_of_dropPrefix? found
    rw [Option.getD_some]
    cases shared : Text.dropPrefix? "*/" ("*" ++ body) with
    | none =>
      refine iff_of_true (comment_cons shared).symm ?_
      rintro ⟨after, same⟩
      rw [← same, Text.dropPrefix?_append] at shared
      cases shared
    | some after =>
      have same : ("*" : Text) ++ body = "*/" ++ after := append_of_dropPrefix? shared
      obtain rfl : body = "/" ++ after := (cons.inj same).2
      have rest : (comment ("*" ++ ("/" ++ after))).2 = after := rfl
      have slash : (comment ("/" ++ after)).2 = (comment after).2 := comment_cons rfl
      rw [rest, slash, comment_snd_eq_iff, imp_iff_right ⟨after, rfl⟩]
      exact ⟨fun empty => by rw [empty]; rfl, fun whole => (cons.inj (cons.inj whole).2).2⟩

/-- Where a statement is after some text, if the text does not end it. -/
def Place.run (p : Place) : Text → Option Place
  | [] => some p
  | b :: s => if p.endsAt b then none else (p.step b).run s

/-- Whether the statement ends with the last byte of a text. -/
def Place.ends (p : Place) : Text → Bool
  | [] => false
  | b :: s => if p.endsAt b then s.isEmpty else (p.step b).ends s

variable {p : Place} {a b body : Text}

theorem Place.ends_append_iff (p : Place) (a : Text) (filled : b ≠ []) :
    p.ends (a ++ b) ↔ ∃ q, p.run a = some q ∧ q.ends b := by
  induction a generalizing p with
  | nil => simp [run]
  | cons x a ih =>
    rw [cons_append, ends, run]
    split
    · simp [filled]
    · exact ih _

theorem Place.exists_of_ends {t : Text} (ends : p.ends t) :
    ∃ front last, t = front ++ [last] ∧ last ∉ ("function " : Text) ∧ ∀ s, take p (t ++ s) = (t, s) := by
  induction t generalizing p with
  | nil => cases ends
  | cons b t ih =>
    rw [Place.ends] at ends
    split at ends
    · rename_i here
      obtain rfl := isEmpty_iff.mp ends
      refine ⟨[], b, rfl, ?_, fun s => if_pos here⟩
      have either : b = ';' ∨ b = '\x7d' := by
        simp only [endsAt, Bool.and_eq_true, Bool.or_eq_true, beq_iff_eq] at here
        exact here.2.imp And.left fun brace => brace.1.1
      rcases either with rfl | rfl <;> decide
    · rename_i inside
      obtain ⟨front, last, rfl, apart, taken⟩ := ih ends
      refine ⟨b :: front, last, rfl, apart, fun s => ?_⟩
      rw [cons_append, take, if_neg inside, taken]

/-- Whether a statement starts here. -/
def Starts (s : Text) : Prop := s.head?.any (fun b => !isBlank b) ∧ ¬ startsWith s "/*" ∧ ¬ startsWith s "//"

/-- A statement from its first byte to the one that ends it. -/
structure IsStatement (t : Text) : Prop where
  starts : ∀ s, Starts (t ++ s)
  ends : (start t).ends t

theorem Starts.move_eq (starts : Starts s) : move s = ([trim (take (start s) s).1], (take (start s) s).2) := by
  obtain ⟨filled, block, line⟩ := starts
  cases s with
  | nil => cases filled
  | cons b s =>
    have other : Text.dropPrefix? "/*" (b :: s) = none := by simpa [startsWith] using block
    have unblank : isBlank b = false := by simpa using filled
    simp [move, unblank, other, line]

theorem start_append_cons {x : UInt8} (apart : x ∉ ("function " : Text)) (a b : Text) :
    start (a ++ x :: b) = start a := by
  rw [start, startsWith_append_cons apart, start]

theorem IsStatement.passes {t : Text} (statement : IsStatement t) (s : Text) : Passes (t ++ s) [trim t] s := by
  obtain ⟨front, last, rfl, apart, taken⟩ := Place.exists_of_ends statement.ends
  have same : start (front ++ [last] ++ s) = start (front ++ [last]) := by
    rw [append_assoc, singleton_append, start_append_cons apart, start_append_cons apart]
  have moved := (statement.starts s).move_eq
  rw [same, taken] at moved
  exact .move (by simp) moved .here

/-- A comment that opens between statements goes on to its first closing mark, and it is passed over, unless it is the
mark `/**/`, which leaves it open. -/
theorem texts_comment_iff {front : Text} (outside : ∀ s, Passes (front ++ s) found s)
    (closed : ∀ s, comment (body ++ ("*/" ++ s)) = (body, s)) :
    (∀ source more inner, Passes source more ("/*" ++ inner) → Passes source more (afterComment inner)) ∧
    (∀ inner, afterComment inner = (comment inner).2 ↔ (("*/" : Text) <+: inner → inner = "*/")) ∧
    ((∀ s, texts (front ++ ("/*" ++ (body ++ ("*/" ++ s)))) = texts (front ++ s)) ↔ body ≠ []) := by
  have resumes : ∀ source more inner, Passes source more ("/*" ++ inner) → Passes source more (afterComment inner) := by
    intro source more inner opened
    have quiet : Passes ("/*" ++ inner) [] (afterComment inner) := .quiet (b := '/') rfl .here
    simpa using opened.trans quiet
  refine ⟨resumes, fun _ => afterComment_eq_iff, ?_⟩
  have after : ∀ s, texts (front ++ ("/*" ++ (body ++ ("*/" ++ s)))) =
      found ++ texts (afterComment (body ++ ("*/" ++ s))) :=
    fun s => (resumes _ _ _ (outside _)).texts_eq
  simp only [after, fun s => (outside s).texts_eq, append_cancel_left_eq]
  constructor
  · rintro same rfl
    exact absurd (same "a;") (by decide +kernel)
  · intro filled s
    have whole := closed s
    rw [afterComment_eq_iff.mpr, whole]
    rintro ⟨rest, same⟩
    rw [← same] at whole
    exact absurd (Prod.mk.inj whole).1.symm filled

theorem texts_comment_between :
    texts ("var a;" ++ ("/*" ++ (" it's " ++ ("*/" ++ "var b;")))) = texts ("var a;" ++ "var b;") := by
  have first : IsStatement "var a;" := ⟨fun _ => ⟨rfl, Bool.false_ne_true, Bool.false_ne_true⟩, rfl⟩
  have closed : ∀ s, comment (" it's " ++ ("*/" ++ s)) = ((" it's " : Text), s) := fun _ => rfl
  exact (texts_comment_iff first.passes closed).2.2.mpr (by decide) "var b;"

/-- The mark `/**/` leaves a comment open, which hides what follows. -/
theorem texts_empty_comment : texts "var a;/**/var b;" = [("var a;" : Text)] := by decide +kernel

/-- The comment that has `body` between its marks. -/
def blockComment (body : Text) : Text := "/*" ++ (body ++ "*/")

/-- The end of a statement stays when a comment is put into it, exactly if the bytes of the comment lead to a place from
where the rest ends the statement. They do if they lead back to where they began and the keyword keeps its space. -/
theorem isStatement_comment_iff (statement : IsStatement (a ++ b)) (filled : b ≠ []) (starts : ∀ s, Starts (a ++ s)) :
    (∀ t, IsStatement t → ∀ s, texts (t ++ s) = trim t :: texts s) ∧
    (IsStatement (a ++ (blockComment body ++ b)) ↔
      ∃ p q, (start a).run a = some p ∧ p.run (blockComment body) = some q ∧ q.ends b) ∧
    (start (a ++ b) = start a → (∀ p, (start a).run a = some p → p.run (blockComment body) = some p) →
      IsStatement (a ++ (blockComment body ++ b))) := by
  have same : start (a ++ (blockComment body ++ b)) = start a := start_append_cons (by decide) a _
  have exact_ : IsStatement (a ++ (blockComment body ++ b)) ↔
      ∃ p q, (start a).run a = some p ∧ p.run (blockComment body) = some q ∧ q.ends b := by
    have whole : (start (a ++ (blockComment body ++ b))).ends (a ++ (blockComment body ++ b)) ↔
        ∃ p q, (start a).run a = some p ∧ p.run (blockComment body) = some q ∧ q.ends b := by
      rw [same, Place.ends_append_iff _ a (by simp [filled])]
      simp [Place.ends_append_iff _ _ filled]
    refine ⟨fun moved => whole.mp moved.ends, fun ends => ⟨fun s => ?_, whole.mpr ends⟩⟩
    rw [append_assoc]
    exact starts _
  refine ⟨fun t statement s => (statement.passes s).texts_eq, exact_, fun keyword returns => exact_.mpr ?_⟩
  have ends := statement.ends
  rw [keyword] at ends
  obtain ⟨p, runs, last⟩ := (Place.ends_append_iff _ a filled).mp ends
  exact ⟨p, p, runs, returns p runs, last⟩

theorem isStatement_comment_call : IsStatement ("f(x" ++ (blockComment " c; " ++ ");")) := by
  have starts : ∀ s, Starts ("f(x" ++ s) := fun _ => ⟨rfl, Bool.false_ne_true, Bool.false_ne_true⟩
  have whole : IsStatement ("f(x" ++ ");") := ⟨fun s => starts _, rfl⟩
  refine (isStatement_comment_iff whole (by decide) starts).2.2 rfl fun p runs => ?_
  rw [← Option.some.inj runs]
  rfl

/-- An apostrophe in a comment opens a string, which nothing closes. -/
theorem texts_comment_apostrophe : texts "f(x);var a;" = [("f(x);" : Text), ("var a;" : Text)] ∧
    texts "f(x/* it's */);var a;" = [("f(x/* it's */);var a;" : Text)] := by
  decide +kernel

end ExternStatement

end ScriptBuild

namespace ScriptBuild.ExternStatement

open List Text

inductive Piece where
  | blank (b : UInt8)
  | lineComment (text : Text)
  /-- The closing mark may be missing at the end of a file. -/
  | block (isDoc : Bool) (body closing : Text)
  | statement (range : Text)

namespace Piece

def text : Piece → Text
  | .blank b => [b]
  | .lineComment text => "//" ++ text
  | .block isDoc body closing => (if isDoc then "/**" else "/*") ++ (body ++ closing)
  | .statement range => range

/-- Whether this is a piece if `rest` follows. -/
def Fits (rest : Text) : Piece → Prop
  | .blank b => isBlank b
  | .lineComment text => ('\n' : UInt8) ∉ text ∧ rest.head?.all (fun b : UInt8 => b == '\n')
  | .block isDoc body closing =>
    (isDoc = false → ¬ startsWith (body ++ (closing ++ rest)) "*") ∧ comment (body ++ (closing ++ rest)) = (body, rest)
  | .statement range =>
    range ≠ [] ∧ Starts (range ++ rest) ∧ take (start (range ++ rest)) (range ++ rest) = (range, rest)

/-- The documentation for what follows a piece. -/
def docAfter (doc : Text) : Piece → Text
  | .block true body _ => body
  | .statement _ => []
  | _ => doc

def read (doc : Text) (line : Nat) : Piece → List ExternStatement
  | .statement range => [⟨doc, trim range, line⟩]
  | _ => []

end Piece

/-- Pieces one after the other. -/
def Laid : List Piece → Prop
  | [] => True
  | p :: pieces => p.Fits (pieces.flatMap Piece.text) ∧ Laid pieces

/-- The statements among some pieces, after those in `front`. -/
def readAll (front : List Piece) : List Piece → List ExternStatement
  | [] => []
  | p :: pieces =>
    p.read (front.foldl Piece.docAfter []) (1 + newlines (front.flatMap Piece.text)) ++ readAll (front ++ [p]) pieces

/-- What a scan finds in a text after `doc` and on `line`. -/
def Scans (doc : Text) (line : Nat) (s : Text) (found : List ExternStatement) : Prop :=
  ∃ pieces, pieces.flatMap Piece.text = s ∧ Laid pieces ∧ ∀ front, front.foldl Piece.docAfter [] = doc →
    1 + newlines (front.flatMap Piece.text) = line → readAll front pieces = found

variable {doc s rest body : Text} {line : Nat} {found : List ExternStatement}

theorem newlines_append (a b : Text) : newlines (a ++ b) = newlines a + newlines b := countP_append

theorem Scans.cons (p : Piece) (fits : p.Fits rest)
    (scans : Scans (p.docAfter doc) (line + newlines p.text) rest found) :
    Scans doc line (p.text ++ rest) (p.read doc line ++ found) := by
  obtain ⟨pieces, rfl, laid, reads⟩ := scans
  refine ⟨p :: pieces, rfl, ⟨fits, laid⟩, fun front docs lines => ?_⟩
  rw [readAll, docs, lines, reads (front ++ [p])]
  · rw [foldl_append, docs]
    rfl
  · rw [flatMap_append, newlines_append, ← Nat.add_assoc, lines, flatMap_singleton]

/-- A comment goes on to the first closing mark, or to the end. -/
theorem exists_comment (s : Text) :
    ∃ closing, s = (comment s).1 ++ (closing ++ (comment s).2) ∧ newlines closing = 0 := by
  cases found : cut? "*/" s with
  | none => exact ⟨[], by simp [comment, found], rfl⟩
  | some parts =>
    rw [comment, found]
    exact ⟨"*/", append_of_cut? found, rfl⟩

/-- A line goes on to the next newline, or to the end. -/
theorem not_mem_cut (s : Text) : ('\n' : UInt8) ∉ ((cut? "\n" s).getD (s, [])).1 := by
  by_cases mem : ('\n' : UInt8) ∈ s
  · obtain ⟨before, after, rfl, absent⟩ := eq_append_cons_of_mem mem
    have found : cut? "\n" (before ++ ('\n' : UInt8) :: after) = some (before ++ [], after) := cut?_append absent _
    rw [found, append_nil]
    exact absent
  · have found : cut? "\n" (s ++ []) = (cut? "\n" []).map _ := cut?_append mem []
    rw [append_nil] at found
    rw [found]
    exact mem

theorem newlines_eq_zero (plain : ('\n' : UInt8) ∉ s) : newlines s = 0 :=
  countP_eq_zero.mpr fun _ mem same => plain (beq_iff_eq.mp same ▸ mem)

theorem Scans.block (isDoc : Bool) {inner : Text} (plain : isDoc = false → ¬ startsWith inner "*")
    (scans : Scans (if isDoc then (comment inner).1 else doc) (line + newlines (comment inner).1) (comment inner).2
      found) : Scans doc line ((if isDoc then "/**" else "/*") ++ inner) found := by
  obtain ⟨closing, whole, quiet⟩ := exists_comment inner
  have lines : newlines (Piece.block isDoc (comment inner).1 closing).text = newlines (comment inner).1 := by
    rw [Piece.text, newlines_append, newlines_append, quiet, newlines_eq_zero (by cases isDoc <;> decide), Nat.zero_add,
      Nat.add_zero]
  have fits : (Piece.block isDoc (comment inner).1 closing).Fits (comment inner).2 := by
    rw [Piece.Fits, ← whole]
    exact ⟨plain, rfl⟩
  have first : Scans doc line ((Piece.block isDoc (comment inner).1 closing).text ++ (comment inner).2) found := by
    refine Scans.cons _ fits ?_
    rw [lines]
    cases isDoc <;> exact scans
  rwa [Piece.text, append_assoc, append_assoc, ← whole] at first

theorem Scans.lineComment {text : Text} (plain : ('\n' : UInt8) ∉ text)
    (ends : rest.head?.all fun b : UInt8 => b == '\n') (scans : Scans doc line rest found) :
    Scans doc line ("//" ++ (text ++ rest)) found := by
  have quiet : newlines (Piece.lineComment text).text = 0 :=
    newlines_eq_zero fun mem => (mem_append.mp mem).elim (by decide) plain
  rw [← append_assoc]
  exact Scans.cons (.lineComment text) ⟨plain, ends⟩ (quiet.symm ▸ scans)

theorem take_append (p : Place) (s : Text) : (take p s).1 ++ (take p s).2 = s := by
  induction s generalizing p with
  | nil => rfl
  | cons b s ih =>
    rw [take]
    split
    · rfl
    · exact congrArg (b :: ·) (ih (p.step b))

theorem scans_scan (doc : Text) (line : Nat) (s : Text) : Scans doc line s (scan doc line s) := by
  have nil : ∀ doc line, Scans doc line [] [] := fun _ _ => ⟨[], rfl, trivial, fun _ _ _ => rfl⟩
  fun_induction scan doc line s with
  | case1 doc line => exact nil doc line
  | case2 doc line b rest newline ih =>
    obtain rfl := beq_iff_eq.mp newline
    exact Scans.cons (.blank '\n') rfl ih
  | case3 doc line b rest newline blank ih =>
    refine Scans.cons (.blank b) (by simp [Piece.Fits, isBlank, blank]) ?_
    have quiet : newlines [b] = 0 := by simpa [newlines] using newline
    exact quiet.symm ▸ ih
  | case4 doc line b rest _ _ inner found body isDoc ih =>
    rw [append_of_dropPrefix? found, append_of_dropPrefix? isDoc]
    exact Scans.block true (by simp) ih
  | case5 doc line b rest _ _ inner found isDoc ih =>
    rw [append_of_dropPrefix? found]
    exact Scans.block false (by simp [startsWith, isDoc]) ih
  | case6 doc line b rest _ _ _ opens next =>
    obtain ⟨text, found⟩ := Option.isSome_iff_exists.mp opens
    have parts : cut? "\n" ("//" ++ text) = (cut? "\n" text).map _ := cut?_append (by decide) text
    have plain := not_mem_cut text
    rw [append_of_dropPrefix? found] at next ⊢
    rw [Option.map_eq_none_iff.mp (parts.symm.trans next)] at plain
    rw [← append_nil text]
    exact .lineComment plain rfl (nil doc line)
  | case7 doc line b rest _ _ _ opens front after next ih =>
    obtain ⟨text, found⟩ := Option.isSome_iff_exists.mp opens
    have parts : cut? "\n" ("//" ++ text) = (cut? "\n" text).map _ := cut?_append (by decide) text
    have plain := not_mem_cut text
    rw [append_of_dropPrefix? found] at next ⊢
    obtain ⟨⟨text', _⟩, inner, same⟩ := Option.map_eq_some_iff.mp (parts.symm.trans next)
    cases same
    rw [inner] at plain
    rw [append_of_cut? inner]
    exact .lineComment plain rfl (.cons (.blank '\n') rfl ih)
  | case8 doc line b rest newline blank found opens place ih =>
    have whole := take_append place (b :: rest)
    have starts : Starts (b :: rest) := by
      simp_all [Starts, isBlank, startsWith]
    have filled : (take place (b :: rest)).1 ≠ [] := by
      rw [take]
      split <;> simp
    have fits : (Piece.statement (take place (b :: rest)).1).Fits (take place (b :: rest)).2 := by
      rw [Piece.Fits, whole]
      exact ⟨filled, starts, rfl⟩
    have first : Scans doc line ((take place (b :: rest)).1 ++ (take place (b :: rest)).2) _ := Scans.cons _ fits ih
    rwa [whole] at first

/-- A file is parted into pieces, one after the other: blanks, comments, and the statements that are found, each of
which has the documentation since the last one and the line on which it starts. -/
theorem exists_pieces (source : Text) : ∃ pieces, pieces.flatMap Piece.text = source ∧ Laid pieces ∧
    externStatements source = readAll [] pieces := by
  obtain ⟨pieces, whole, laid, reads⟩ := scans_scan [] 1 source
  exact ⟨pieces, whole, laid, (reads [] rfl rfl).symm⟩

end ScriptBuild.ExternStatement
