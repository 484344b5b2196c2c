import ScriptBuild.Proofs.Exclusions

/-! The layout of what is written into a buffer. -/

namespace ScriptBuild

open List Text

/-- A byte with the depth at which it is written. -/
abbrev PlacedByte := UInt8 × Nat

namespace PlacedByte

/-- A line as it is written: it starts with the indentation of the depth at which its first byte is written. -/
def shown (unit : Text) : List PlacedByte → Text
  | [] => []
  | (c, depth) :: line => repeated depth unit ++ c :: line.map Prod.fst

def lines (bytes : List PlacedByte) : List (List PlacedByte) := bytes.splitOnP (·.1 == '\n')

theorem exists_lines (bytes : List PlacedByte) : ∃ line rest, lines bytes = line :: rest :=
  exists_cons_of_ne_nil (splitOnP_ne_nil _ _)

/-- Bytes as they are written; `start` tells whether they begin a line. -/
def laid (unit : Text) : Bool → List PlacedByte → Text
  | _, [] => []
  | start, (c, depth) :: bytes =>
    if c == '\n' then c :: laid unit true bytes
    else onlyIf start (repeated depth unit) ++ c :: laid unit false bytes

theorem split_laid {unit : Text} (flat : ('\n' : UInt8) ∉ unit) {bytes line : List PlacedByte} {rest : List (List PlacedByte)}
    (cut : lines bytes = line :: rest) (start : Bool) : split '\n' (laid unit start bytes) =
      (if start then shown unit line else line.map Prod.fst) :: rest.map (shown unit) := by
  induction bytes generalizing line rest start with
  | nil =>
    cases cut
    cases start <;> rfl
  | cons byte bytes ih =>
    obtain ⟨next, more, later⟩ := exists_lines bytes
    have here : lines (byte :: bytes) = if byte.1 == '\n' then [] :: lines bytes else (lines bytes).modifyHead (cons byte) :=
      splitOnP_cons_eq_if_modifyHead byte bytes
    rw [cut, later] at here
    rw [laid]
    split at here
    · rename_i ends
      cases here
      rw [if_pos ends, split, if_pos ends, ih later]
      cases start <;> rfl
    · rename_i inside
      cases here
      have plain : ('\n' : UInt8) ∉ onlyIf start (repeated byte.2 unit) := by
        cases start <;> simp [onlyIf, repeated, flat]
      rw [if_neg inside, split_append_left plain, split, if_neg inside, ih later]
      cases start <;> rfl

/-- Without indentations only the bytes are left. -/
theorem laid_nil (start : Bool) (bytes : List PlacedByte) : laid [] start bytes = bytes.map Prod.fst := by
  induction bytes generalizing start with
  | nil => rfl
  | cons byte bytes ih => simp [laid, ih, repeated, onlyIf]

theorem map_shown_lines {unit : Text} (flat : ('\n' : UInt8) ∉ unit) (bytes : List PlacedByte) :
    (lines bytes).map (shown unit) = split '\n' (laid unit true bytes) := by
  obtain ⟨line, rest, cut⟩ := exists_lines bytes
  rw [split_laid flat cut, cut]
  rfl

end PlacedByte

/-- The ways to write into a buffer and to move its depth. -/
inductive BufferCall where
  | write (s : Text)
  | line (s : Text)
  | newline
  | indent
  | dedent

namespace BufferCall

open PlacedByte Buffer

def text : BufferCall → Text
  | write s => s
  | line s => s ++ "\n"
  | newline => "\n"
  | indent | dedent => []

def run (b : Buffer) : BufferCall → Buffer
  | write s => b.write s
  | line s => b.line s
  | newline => b.newline
  | indent => b.indent
  | dedent => b.dedent

def shift : BufferCall → Int
  | indent => 1
  | dedent => -1
  | _ => 0

/-- The depth after a call: a step below zero is not taken. -/
def depth (n : Nat) (call : BufferCall) : Nat := (max 0 (n + call.shift)).toNat

/-- What calls write from a depth on. -/
def placed : Nat → List BufferCall → List PlacedByte
  | _, [] => []
  | n, call :: calls => call.text.map (·, n) ++ placed (call.depth n) calls

theorem map_fst_placed (n : Nat) (calls : List BufferCall) : (placed n calls).map Prod.fst = calls.flatMap text := by
  induction calls generalizing n with
  | nil => rfl
  | cons call calls ih => simp [placed, ih, Function.comp_def]

theorem run_eq (b : Buffer) (call : BufferCall) :
    call.run b = { b.write call.text with depth := call.depth b.depth } := by
  have kept := (b.extends_write call.text).depth
  cases call with
  | write s | line s | newline =>
    rw [show depth b.depth _ = b.depth by simp [depth, shift], ← kept]
    rfl
  | indent => rfl
  | dedent =>
    rw [show depth b.depth dedent = b.depth - 1 by simp only [depth, shift]; omega]
    rfl

theorem put_laid (b : Buffer) (c : UInt8) (bytes : List PlacedByte) :
    (b.put c).text ++ laid b.unit (b.put c).atLineStart bytes =
      b.text ++ laid b.unit b.atLineStart ((c, b.depth) :: bytes) := by
  rw [put, laid]
  split
  · simp [Buffer.text]
  · split
    · rename_i start
      simp [Buffer.text, start, onlyIf]
    · rename_i inside
      simp [Buffer.text, inside, onlyIf]

theorem write_laid (b : Buffer) (s : Text) (bytes : List PlacedByte) :
    (b.write s).text ++ laid b.unit (b.write s).atLineStart bytes =
      b.text ++ laid b.unit b.atLineStart (s.map (·, b.depth) ++ bytes) := by
  induction s generalizing b with
  | nil => rfl
  | cons c s ih =>
    have kept := b.extends_put c
    have rest := ih (b.put c)
    rw [kept.unit, kept.depth, put_laid] at rest
    exact rest

theorem text_foldl_run (b : Buffer) (calls : List BufferCall) :
    (calls.foldl run b).text = b.text ++ laid b.unit b.atLineStart (placed b.depth calls) := by
  induction calls generalizing b with
  | nil => simp [placed, laid]
  | cons call calls ih =>
    rw [foldl_cons, ih, placed, ← write_laid, run_eq, ← (b.extends_write call.text).unit]
    rfl

theorem depth_foldl_run (b : Buffer) (calls : List BufferCall) :
    (calls.foldl run b).depth = calls.foldl depth b.depth := by
  induction calls generalizing b with
  | nil => rfl
  | cons call calls ih => rw [foldl_cons, ih, run_eq, foldl_cons]

/-- Two writes are one. What calls write into a new buffer are the lines of their texts, each with the indentation of
the depth at its first byte. -/
theorem foldl_run_layout {unit : Text} (flat : ('\n' : UInt8) ∉ unit) (calls : List BufferCall) :
    (∀ (b : Buffer) (s t : Text), (b.write s).write t = b.write (s ++ t)) ∧
    split '\n' (calls.foldl run { unit }).text = (lines (placed 0 calls)).map (shown unit) ∧
    split '\n' (calls.flatMap text) = (lines (placed 0 calls)).map (map Prod.fst) ∧
    (calls.foldl run { unit }).depth = calls.foldl depth 0 := by
  have bare := map_shown_lines (not_mem_nil : ('\n' : UInt8) ∉ []) (placed 0 calls)
  rw [laid_nil, map_fst_placed] at bare
  refine ⟨fun b s t => (write_append b s t).symm, ?_, ?_, depth_foldl_run _ _⟩
  · rw [text_foldl_run, map_shown_lines flat]
    rfl
  · rw [← bare]
    refine map_congr_left fun line _ => ?_
    cases line <;> simp [shown, repeated]

theorem foldl_run_layout_nested : ('\n' : UInt8) ∉ ("  " : Text) ∧ split '\n' ([line "if", indent, write "a", dedent,
      dedent, write "b\n\n", indent, newline, indent, write "c"].foldl run { unit := "  " }).text =
    ["if", "  ab", "", "", "    c"] :=
  ⟨by decide, (foldl_run_layout (by decide) _).2.1.trans (by decide +kernel)⟩

end BufferCall

end ScriptBuild
