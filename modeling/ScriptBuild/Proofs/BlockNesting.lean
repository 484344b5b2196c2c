import Mathlib.Tactic.SplitIfs
import ScriptBuild.Proofs.Phrases
import ScriptBuild.Source.Block

/-! The blocks that lines leave open are known from the first words of the lines alone. -/

namespace ScriptBuild

open List Block.Reader SourceLine

variable {l : SourceLine} {s : Text} {line : Nat} {b : Body}

def SourceLine.word (l : SourceLine) : Text := (keyword (stripComment (Text.trim l.text))).1

def SourceLine.opens (l : SourceLine) : Bool := l.word == "if" || l.word == "while"

def SourceLine.closes (l : SourceLine) : Bool := l.word == "end"

namespace Nesting

/-- Open blocks, the innermost first: the line that opened each and its word. -/
abbrev Blocks := List (Nat × Text)

def after (blocks : Blocks) (l : SourceLine) : Blocks :=
  if l.opens then (l.number, l.word) :: blocks else if l.closes then blocks.tail else blocks

def leftOpen (ls : List SourceLine) : Blocks := ls.foldl after []

/-- Every `end` among the lines closes a block that they opened. -/
def Matched (ls : List SourceLine) : Prop :=
  ∀ front l back, ls = front ++ l :: back → l.closes → leftOpen front ≠ []

theorem leftOpen_concat (ls : List SourceLine) (l : SourceLine) : leftOpen (ls ++ [l]) = after (leftOpen ls) l := by
  simp [leftOpen]

theorem matched_nil : Matched [] := by
  intro front l back split
  simp at split

theorem matched_concat {ls : List SourceLine} (matched : Matched ls) (closes : l.closes → leftOpen ls ≠ []) :
    Matched (ls ++ [l]) := by
  intro front k back split ends
  rcases eq_nil_or_concat back with rfl | ⟨back, last, rfl⟩
  · obtain ⟨same, last⟩ := append_inj' split rfl
    obtain rfl : l = k := (cons.inj last).1
    rw [← same]
    exact closes ends
  · have shorter : ls ++ [l] = (front ++ k :: back) ++ [last] := by rw [split]; simp
    obtain ⟨same, _⟩ := append_inj' shorter rfl
    exact matched front k back same ends

theorem after_of_opens (opens : l.opens) (blocks : Blocks) :
    after blocks l = (l.number, l.word) :: blocks := if_pos opens

theorem not_opens_of_closes (closes : l.closes) : ¬ l.opens := by
  rw [opens, eq_of_beq closes]
  decide

theorem after_of_closes (closes : l.closes) (blocks : Blocks) : after blocks l = blocks.tail := by
  rw [after, if_neg (not_opens_of_closes closes), if_pos closes]

theorem after_of_word {word : Text} (same : l.word = word) (notIf : word ≠ "if") (notWhile : word ≠ "while")
    (notEnd : word ≠ "end") (blocks : Blocks) : after blocks l = blocks := by
  subst same
  simp only [after, opens, closes, beq_eq_false_iff_ne.mpr notIf,
    beq_eq_false_iff_ne.mpr notWhile, beq_eq_false_iff_ne.mpr notEnd]
  rfl

end Nesting

open Nesting

def missingEnd (word : Text) : Text := "missing end for " ++ word

def unexpectedEnd : Text := "unexpected " ++ Text.quote "end"

def Diagnostic.isNesting (d : Diagnostic) : Bool :=
  d.message == missingEnd "if" || d.message == missingEnd "while" || d.message == unexpectedEnd

section Messages

def PlainMessage (s : Text) : Prop := s ≠ missingEnd "if" ∧ s ≠ missingEnd "while" ∧ s ≠ unexpectedEnd

instance (s : Text) : Decidable (PlainMessage s) :=
  inferInstanceAs (Decidable (s ≠ missingEnd "if" ∧ s ≠ missingEnd "while" ∧ s ≠ unexpectedEnd))

theorem plainMessage_of_head {b : UInt8} (head : s.head? = some b) (notM : b ≠ 'm') (notU : b ≠ 'u') :
    PlainMessage s := by
  have other : ∀ t : Text, t.head? ≠ some b → s ≠ t := fun t differs same => differs (same ▸ head)
  refine ⟨other _ fun same => notM ?_, other _ fun same => notM ?_, other _ fun same => notU ?_⟩ <;>
    exact (Option.some.inj same).symm

/-- What is unexpected is told by the text after the first word. -/
theorem plainMessage_unexpected (other : s ≠ Text.quote "end") : PlainMessage ("unexpected " ++ s) := by
  have first : ∀ word, "unexpected " ++ s ≠ missingEnd word := by
    intro word same
    have heads : some ('u' : UInt8) = some ('m' : UInt8) := congrArg head? same
    exact absurd heads (by decide)
  exact ⟨first "if", first "while", fun same => other (append_cancel_left same)⟩

theorem plainMessage_symbol (s : Symbol) : PlainMessage ("unexpected " ++ s.text.quote) := by
  apply plainMessage_unexpected
  cases s with
  | binary op => cases op <;> decide
  | _ => decide

theorem plainMessage_readError (e : Token.ReadError) : PlainMessage e.message := by
  cases e with
  | unterminatedString => decide
  | unexpectedByte b =>
    have text : (Token.ReadError.unexpectedByte b).message =
        "unexpected " ++ ("character " ++ Text.quoteRune b.toNat) := rfl
    rw [text]
    apply plainMessage_unexpected
    intro same
    have heads : some ('c' : UInt8) = some ('"' : UInt8) := congrArg head? same
    exact absurd heads (by decide)

theorem plainMessage_trailing (found : Option Token) : PlainMessage (ExprError.trailing found).message := by
  have text : (ExprError.trailing found).message =
      "unexpected " ++ (Token.describe found ++ " after expression") := append_assoc _ _ _
  rw [text]
  apply plainMessage_unexpected
  intro same
  have lasts := congrArg getLast? same
  rw [getLast?_append] at lasts
  have letters : some ('n' : UInt8) = some ('"' : UInt8) := lasts
  exact absurd letters (by decide)

/-- An expression that does not parse is never taken for a block that is not closed. -/
theorem plainMessage_parse {text : Text} {e : ExprError} (failed : Expr.parse line text = .error e) :
    PlainMessage e.message := by
  have spares := Expr.sparesWords_of_parse failed
  cases e with
  | token e => exact plainMessage_readError e
  | trailing found => exact plainMessage_trailing found
  | unexpected found =>
    cases found with
    | none => decide
    | some t =>
      obtain ⟨s, rfl⟩ := spares
      exact plainMessage_symbol s
  | _ => exact plainMessage_of_head (b := 'e') rfl (by decide) (by decide)

theorem plainMessage_variableSpec {spec : Text} {e : SignatureError}
    (failed : Signature.variableSpec line spec = .error e) : PlainMessage e.message := by
  have letter : ∀ s : Text, s.head? = some ('i' : UInt8) → PlainMessage s :=
    fun s begins => plainMessage_of_head begins (by decide) (by decide)
  unfold Signature.variableSpec at failed
  dsimp only at failed
  split at failed
  · cases failed
    exact letter _ rfl
  · split at failed
    · cases failed
    · split at failed
      · cases failed
      · cases failed
        exact letter _ rfl

end Messages

namespace Block

def Frame.opening (f : Frame) : Nat × Text := (f.line, f.part.keyword)

namespace Reader

def openings (r : Reader) : Nesting.Blocks := r.frames.map Frame.opening

/-- The later reader has the given blocks open and reported nothing new about nesting. -/
structure Leads (r later : Reader) (blocks : Nesting.Blocks) : Prop where
  file : later.file = r.file
  openings : later.openings = blocks
  plain : ∀ d ∈ later.diagnostics, d ∈ r.diagnostics ∨ (d.file = r.file ∧ d.isError ∧ PlainMessage d.message)

variable {r : Reader} {blocks : Nesting.Blocks}

section

variable (r : Reader) (line : Nat) (text : Text)

theorem leads_refl : r.Leads r r.openings := ⟨rfl, rfl, fun _ old => .inl old⟩

theorem leads_report {message : Text} (plain : PlainMessage message) : r.Leads (r.report line message) r.openings := by
  refine ⟨rfl, rfl, fun d mem => ?_⟩
  rcases mem_cons.mp mem with rfl | old
  · exact .inr ⟨rfl, rfl, plain⟩
  · exact .inl old

theorem leads_add (s : Statement) : r.Leads (r.add s) r.openings := by
  unfold add
  cases frames : r.frames with
  | nil => exact ⟨rfl, by simp [openings, frames], fun _ old => .inl old⟩
  | cons frame frames' =>
    refine ⟨rfl, ?_, fun _ old => .inl old⟩
    simp only [openings, frames, map_cons]
    rfl

theorem leads_addVariable (isConst : Bool) (spec : Text) : r.Leads (r.addVariable line isConst spec) r.openings := by
  unfold addVariable
  split
  · exact leads_add r _
  · rename_i failed
    exact leads_report r line (plainMessage_variableSpec failed)

theorem leads_result : r.Leads (r.result line text) r.openings := by
  unfold result
  split
  · exact leads_add r _
  · split
    · exact leads_add r _
    · rename_i failed
      exact leads_report r line (plainMessage_parse failed)

theorem leads_expression : r.Leads (r.expression line text) r.openings := by
  unfold expression
  split
  · exact leads_add r _
  · rename_i failed
    exact leads_report r line (plainMessage_parse failed)

theorem leads_open (part : Part) : r.Leads (r.open line text part) ((line, part.keyword) :: r.openings) := by
  unfold Reader.open
  split
  · exact ⟨rfl, rfl, fun _ old => .inl old⟩
  · rename_i failed
    exact ⟨rfl, rfl, (leads_report r line (plainMessage_parse failed)).plain⟩

/-- An `else` stays in the block of its `if`, or is reported as such. -/
theorem leads_elseLine : r.Leads (r.elseLine line) r.openings := by
  unfold elseLine
  split
  · rename_i frames
    exact ⟨rfl, by simp [openings, frames]; rfl, fun _ old => .inl old⟩
  · exact leads_report r line (plainMessage_unexpected (by decide))

theorem leads_close (frame : Frame) (frames : List Frame) :
    r.Leads (r.close frame frames) (frames.map Frame.opening) := by
  unfold close
  split
  · rename_i s _
    obtain ⟨file, openings, plain⟩ := leads_add { r with frames } s
    exact ⟨file, openings, plain⟩
  · exact ⟨rfl, rfl, fun _ old => .inl old⟩

theorem leads_endLine (nonempty : r.openings ≠ []) : r.Leads (r.endLine line) r.openings.tail := by
  unfold endLine
  cases frames : r.frames with
  | nil => exact absurd (by rw [openings, frames]; rfl) nonempty
  | cons frame frames' =>
    have tail : r.openings.tail = frames'.map Frame.opening := by rw [openings, frames]; rfl
    rw [tail]
    exact leads_close r frame frames'

theorem leads_step (l : SourceLine) (closes : l.closes → r.openings ≠ []) :
    r.Leads (r.step l) (after r.openings l) := by
  unfold step line
  dsimp only
  split_ifs with empty var const result opensIf opensWhile other ends
  · have word : l.word = [] := by rw [word, isEmpty_iff.mp empty]; rfl
    rw [after_of_word word (by decide) (by decide) (by decide)]
    exact leads_refl r
  · rw [after_of_word (eq_of_beq var) (by decide) (by decide) (by decide)]
    exact leads_addVariable r _ _ _
  · rw [after_of_word (eq_of_beq const) (by decide) (by decide) (by decide)]
    exact leads_addVariable r _ _ _
  · rw [after_of_word (eq_of_beq result) (by decide) (by decide) (by decide)]
    exact leads_result r _ _
  · rw [after_of_opens (by rw [opens, word, opensIf]; rfl),
      word, eq_of_beq opensIf]
    exact leads_open r _ _ .yes
  · rw [after_of_opens (by rw [opens, word, opensWhile, Bool.or_true]),
      word, eq_of_beq opensWhile]
    exact leads_open r _ _ .loop
  · rw [after_of_word (eq_of_beq other) (by decide) (by decide) (by decide)]
    exact leads_elseLine r _
  · rw [after_of_closes ends]
    exact leads_endLine r _ (closes ends)
  · have word : ∀ text : Text, ¬ (l.word == text) = true → l.word ≠ text :=
      fun text differs same => differs (beq_iff_eq.mpr same)
    rw [after_of_word rfl (word _ opensIf) (word _ opensWhile) (word _ ends)]
    exact leads_expression r _ _

end

theorem Leads.trans {middle later : Reader} {first : Nesting.Blocks} (start : r.Leads middle first)
    (next : middle.Leads later blocks) : r.Leads later blocks := by
  refine ⟨next.file.trans start.file, next.openings, fun d mem => ?_⟩
  rcases next.plain d mem with old | ⟨file, isError, plain⟩
  · exact start.plain d old
  · exact .inr ⟨file.trans start.file, isError, plain⟩

/-- Lines lead from the blocks that the lines before them left open to those that they leave open. -/
theorem leads_lines {start : Reader} (ls : List SourceLine) :
    ∀ (front : List SourceLine) {r : Reader}, Nesting.Matched (front ++ ls) → start.Leads r (leftOpen front) →
      start.Leads (ls.foldl step r) (leftOpen (front ++ ls)) := by
  induction ls with
  | nil =>
    intro front r _ leads
    rw [append_nil]
    exact leads
  | cons l ls ih =>
    intro front r matched leads
    have closes : l.closes → r.openings ≠ [] := by
      rw [leads.openings]
      exact matched front l ls rfl
    have next := leads_step r l closes
    rw [leads.openings, ← leftOpen_concat] at next
    rw [append_cons] at matched ⊢
    exact ih _ matched (leads.trans next)

def missing (file : Text) (opening : Nat × Text) : Diagnostic :=
  .error .parse file opening.1 (missingEnd opening.2)

theorem diagnostics_close (r : Reader) (frame : Frame) (frames : List Frame) :
    (r.close frame frames).diagnostics = r.diagnostics := by
  unfold close
  split
  · unfold add
    dsimp only
    split <;> rfl
  · rfl

theorem file_closeOpen (r : Reader) : r.closeOpen.file = r.file := by
  unfold closeOpen
  split
  · rfl
  · rename_i frame frames _
    exact (leads_close _ frame frames).file

theorem diagnostics_finish (count : List Frame) : ∀ r : Reader, r.frames.length = count.length →
      (count.foldl (fun r _ => r.closeOpen) r).diagnostics =
        (r.openings.map (missing r.file)).reverse ++ r.diagnostics := by
  induction count with
  | nil =>
    intro r same
    rw [openings, length_eq_zero_iff.mp same]
    rfl
  | cons _ count ih =>
    intro r same
    obtain ⟨frame, frames, split⟩ := exists_cons_of_length_eq_add_one same
    have closed : r.closeOpen.openings = frames.map Frame.opening := by
      rw [closeOpen, split]
      exact (leads_close _ frame frames).openings
    have reported : r.closeOpen.diagnostics = missing r.file frame.opening :: r.diagnostics := by
      rw [closeOpen, split]
      exact diagnostics_close _ _ _
    have fewer : r.closeOpen.frames.length = count.length := by
      have lengths := congrArg length closed
      simp only [openings, length_map] at lengths
      rw [split, length_cons, length_cons] at same
      omega
    rw [foldl_cons, ih _ fewer, closed, reported, file_closeOpen, openings, split]
    simp

end Reader

end Block

/-- What is reported for a body: first what is wrong with single lines, then every block that is not
closed, the innermost first. -/
theorem Body.diagnostics_parse (matched : Nesting.Matched b.lines) : ∃ plain : List Diagnostic,
      (∀ d ∈ plain, d.file = b.file ∧ d.isError ∧ PlainMessage d.message) ∧
      b.parse.2 = plain ++ (leftOpen b.lines).map (missing b.file) := by
  let start : Block.Reader := { file := b.file }
  have leads : start.Leads (b.lines.foldl step start) (leftOpen b.lines) :=
    leads_lines b.lines [] matched (leads_refl start)
  refine ⟨(b.lines.foldl step start).diagnostics.reverse, fun d mem => ?_, ?_⟩
  · rcases leads.plain d (mem_reverse.mp mem) with old | new
    · cases old
    · exact new
  · have all : b.parse.2 = (b.lines.foldl step start).finish.diagnostics.reverse := by
      unfold Body.parse
      split
      · rename_i empty
        rw [empty]
        rfl
      · rfl
    rw [all, finish, diagnostics_finish _ _ rfl, leads.openings, leads.file,
      reverse_append, reverse_reverse]

theorem Nesting.word_of_mem_foldl (ls : List SourceLine) :
    ∀ blocks : Blocks, (∀ o ∈ blocks, o.2 = "if" ∨ o.2 = "while") →
      ∀ o ∈ ls.foldl after blocks, o.2 = "if" ∨ o.2 = "while" := by
  induction ls with
  | nil => exact fun _ words => words
  | cons l ls ih =>
    intro blocks words
    rw [foldl_cons]
    refine ih _ fun o mem => ?_
    unfold after at mem
    split_ifs at mem with opens closes
    · rcases mem_cons.mp mem with same | old
      · rw [same]
        simpa [SourceLine.opens] using opens
      · exact words o old
    · exact words o (mem_of_mem_tail mem)
    · exact words o mem

theorem Body.nesting_parse (matched : Nesting.Matched b.lines) : b.parse.2.filter Diagnostic.isNesting =
      (leftOpen b.lines).map (missing b.file) := by
  obtain ⟨plain, about, all⟩ := Body.diagnostics_parse matched
  have others : plain.filter Diagnostic.isNesting = [] := by
    refine filter_eq_nil_iff.mpr fun d mem => ?_
    obtain ⟨notIf, notWhile, notEnd⟩ := (about d mem).2.2
    simp [Diagnostic.isNesting, notIf, notWhile, notEnd]
  have words : ∀ o ∈ leftOpen b.lines, o.2 = "if" ∨ o.2 = "while" :=
    word_of_mem_foldl b.lines [] fun o absent => absurd absent not_mem_nil
  rw [all, filter_append, others, nil_append]
  refine filter_eq_self.mpr fun d mem => ?_
  obtain ⟨o, left, rfl⟩ := mem_map.mp mem
  rcases words o left with word | word <;>
    simp [Diagnostic.isNesting, missing, Diagnostic.error, word]

end ScriptBuild
