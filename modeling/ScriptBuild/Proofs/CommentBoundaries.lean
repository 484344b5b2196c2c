import Mathlib.Data.List.Induction
import ScriptBuild.Proofs.TokenLeaves

/-! Comments begin outside the string literals that the tokenizer sees. -/

namespace ScriptBuild

open List Text

variable {b : UInt8} {s : Text}

theorem Text.exists_dropBlanks (kinds : List Text) (n : Nat) (s : Text) :
    ∃ l, s = l ++ dropBlanks kinds n s ∧ l ⊆ kinds.flatten := by
  induction n generalizing s with
  | zero => exact ⟨[], rfl, nil_subset _⟩
  | succ n ih =>
    rw [dropBlanks]
    cases found : dropBlank? kinds s with
    | none => exact ⟨[], rfl, nil_subset _⟩
    | some rest =>
      obtain ⟨p, mem, same⟩ := exists_of_findSome?_eq_some found
      obtain ⟨l, split, blank⟩ := ih rest
      refine ⟨p ++ l, ?_, append_subset.mpr ⟨fun b inside => mem_flatten_of_mem mem inside, blank⟩⟩
      rw [append_of_dropPrefix? same, append_assoc, ← split]

theorem Text.exists_trim (s : Text) : ∃ l r, s = l ++ (trim s ++ r) ∧ l ⊆ blanks.flatten ∧ r ⊆ blanks.flatten := by
  obtain ⟨l, first, before⟩ := exists_dropBlanks blanks s.length s
  obtain ⟨r, second, after⟩ := exists_dropBlanks (blanks.map reverse) (trimLeft s).length (trimLeft s).reverse
  have reversed : (blanks.map reverse).flatten ⊆ blanks.flatten := by decide
  refine ⟨l, r.reverse, ?_, before, fun b inside => reversed (after (mem_reverse.mp inside))⟩
  have inner : trimLeft s = trim s ++ r.reverse := by
    rw [← reverse_inj, second, reverse_append, reverse_reverse, trim, trimRight, reverse_reverse]
  rw [← inner]
  exact first

namespace Token

variable {r : Reader} {tokens : List Token}

/-- The text is read up to a place outside string literals. -/
def Outside (s : Text) : Prop := ∃ r, s.foldlM step {} = .ok r ∧ r.mode.quotation = .outside

/-- A byte that ends the token before it, if that is no string literal. -/
theorem step_apart (apart : !continuesName b && !continuesNumber b && !startsPair b) (outside : r.mode.quotation = .outside) :
    step r b = (settle r).bind fun tokens => begin tokens b := by
  simp only [Bool.and_eq_true, Bool.not_eq_true'] at apart
  obtain ⟨mode, tokens⟩ := r
  cases mode with
  | between => rfl
  | number | name => exact if_neg (by simp [apart])
  | half first =>
    cases found : pairSymbol? first b with
    | none => simp [step, found]
    | some symbol => exact absurd (startsPair_of_pairSymbol? found) (by simp [apart])
  | string | escape => cases outside

theorem step_blank (blank : isBlankByte b) (outside : r.mode.quotation = .outside) :
    step r b = (settle r).bind fun tokens => .ok ⟨.between, tokens⟩ := by
  have bytes := of_all_bytes (P := fun b => isBlankByte b →
    !continuesName b && !continuesNumber b && !startsPair b) (by decide +kernel) b
  rw [step_apart (of_decide_eq_true bytes blank) outside]
  simp only [begin, blank, if_true]

/-- Outside string literals there are only bytes of ASCII. -/
def IsAscii (s : Text) : Prop := ∀ front b back, s = front ++ b :: back → Outside front → b < 0x80

theorem isBlankByte_of_ascii : ∀ b ∈ blanks.flatten, b < 0x80 → isBlankByte b := by decide +kernel

theorem readAll_cons_blank (ascii : IsAscii (b :: s)) (blank : b ∈ blanks.flatten) :
    readAll (b :: s) = readAll s ∧ IsAscii s := by
  have first : step {} b = .ok {} :=
    step_blank (isBlankByte_of_ascii b blank (ascii [] b s rfl ⟨{}, rfl, rfl⟩)) rfl
  have skips : ∀ t : Text, (b :: t).foldlM step {} = t.foldlM step {} := fun t => by
    rw [foldlM_cons, first]
    rfl
  refine ⟨by rw [readAll, readAll, skips], fun front c back whole outside => ?_⟩
  rw [Outside, ← skips] at outside
  exact ascii (b :: front) c back (by rw [whole]; rfl) outside

theorem outside_of_readAll (read : readAll s = .ok tokens) : Outside s := by
  obtain ⟨r, ts, reads, settles, _⟩ := exists_of_readAll read
  have tracks := tracks_of_reads reads
  exact ⟨r, reads, tracks.quotation.trans (tracks.settle settles).1⟩

/-- A byte other than a quote at the end stands outside string literals. -/
theorem exists_step_of_readAll (read : readAll (s ++ [b]) = .ok tokens) (other : b ≠ '"' ∧ b ≠ '\'') :
    ∃ r r' ts, s.foldlM step {} = .ok r ∧ r.mode.quotation = .outside ∧ step r b = .ok r' ∧ settle r' = .ok ts ∧
      ts.reverse = tokens := by
  obtain ⟨r', ts, reads, settles, same⟩ := exists_of_readAll read
  rw [foldlM_append] at reads
  obtain ⟨r, front, last⟩ := Grammar.exists_of_bind_eq_ok reads
  obtain ⟨_, last, ends⟩ := Grammar.exists_of_bind_eq_ok last
  cases ends
  have tracks := tracks_of_reads front
  have closed := ((tracks.step last).settle settles).1
  rw [(Quotation.step_mem_states tracks.known b).2 other] at closed
  exact ⟨r, r', ts, front, tracks.quotation.trans closed, last, settles, same⟩

theorem readAll_append_blank (ascii : IsAscii (s ++ [b])) (blank : b ∈ blanks.flatten)
    (read : readAll (s ++ [b]) = .ok tokens) : readAll s = .ok tokens ∧ IsAscii s := by
  have others : ∀ b ∈ blanks.flatten, b ≠ '"' ∧ b ≠ '\'' := by decide +kernel
  obtain ⟨r, r', ts, reads, outside, last, settles, rfl⟩ := exists_step_of_readAll read (others b blank)
  rw [step_blank (isBlankByte_of_ascii b blank (ascii s b [] rfl ⟨r, reads, outside⟩)) outside] at last
  obtain ⟨_, settled, same⟩ := Grammar.exists_of_bind_eq_ok last
  cases same
  cases settles
  refine ⟨?_, fun front c back whole => ascii front c (back ++ [b]) (by rw [whole, append_assoc]; rfl)⟩
  rw [readAll, reads, Except.bind, settled, Except.map]

/-- No token but a string literal has a semicolon in it. -/
theorem readAll_semicolon : readAll (s ++ [(';' : UInt8)]) ≠ .ok tokens := by
  intro read
  obtain ⟨r, r', ts, _, outside, last, _⟩ := exists_step_of_readAll read (by decide)
  rw [step_apart (by decide) outside] at last
  obtain ⟨_, _, begins⟩ := Grammar.exists_of_bind_eq_ok last
  cases begins

theorem readAll_trim (ascii : IsAscii s) (read : readAll s = .ok tokens) : readAll (trim s) = .ok tokens := by
  obtain ⟨l, r, whole, before, behind⟩ := exists_trim s
  generalize trim s = m at whole
  subst whole
  induction l with
  | cons b l ih =>
    obtain ⟨first, rest⟩ := cons_subset.mp before
    obtain ⟨same, ascii⟩ := readAll_cons_blank ascii first
    exact ih rest ascii (same.symm.trans read)
  | nil =>
    rw [nil_append] at read ascii
    induction r using List.reverseRecOn with
    | nil => rwa [append_nil] at read
    | append_singleton r b ih =>
      obtain ⟨rest, last⟩ := append_subset.mp behind
      rw [← append_assoc] at read ascii
      obtain ⟨read, ascii⟩ := readAll_append_blank ascii (last mem_cons_self) read
      exact ih rest ascii read

/-- No comment begins outside string literals, nor would it with one more slash. -/
def Uncommented (s : Text) : Prop :=
  (∀ front back, s = front ++ ("//" ++ back) → ¬ Outside front) ∧ ∀ front, s ≠ front ++ "/"

theorem beforeComment_eq (uncommented : Uncommented s) (outside : Outside s) (c back : Text) : ∀ front : Text,
    s = front ++ back → beforeComment (front.foldl Quotation.step .outside) (back ++ ("//" ++ c)) = back := by
  obtain ⟨r, reads, closed⟩ := outside
  induction back with
  | nil =>
    intro front whole
    rw [append_nil] at whole
    rw [← whole, ← (tracks_of_reads reads).quotation, closed]
    rfl
  | cons b back ih =>
    intro front whole
    have rest := ih (front ++ [b]) (by rw [whole, append_cons])
    rw [foldl_append, foldl_cons, foldl_nil] at rest
    rw [cons_append, beforeComment, if_neg, rest]
    intro begins
    simp only [Bool.and_eq_true, beq_iff_eq] at begins
    obtain ⟨⟨quiet, rfl⟩, next⟩ := begins
    cases back with
    | nil => exact uncommented.2 front whole
    | cons x back =>
      obtain rfl : x = '/' := Option.some.inj next
      rw [whole, foldlM_append] at reads
      obtain ⟨_, first, _⟩ := Grammar.exists_of_bind_eq_ok reads
      exact uncommented.1 front back whole ⟨_, first, (tracks_of_reads first).quotation.trans quiet⟩

/-- A comment behind an accepted text leaves its tokens, whatever its string literals hold. -/
theorem readAll_stripComment (read : readAll s = .ok tokens) (ascii : IsAscii s) (uncommented : Uncommented s) (c : Text) :
    stripComment (s ++ ("//" ++ c)) = trim s ∧ readAll (stripComment (s ++ ("//" ++ c))) = readAll s := by
  have same := readAll_trim ascii read
  have whole : beforeComment .outside (s ++ ("//" ++ c)) = s :=
    beforeComment_eq uncommented (outside_of_readAll read) c s [] rfl
  have kept : dropSuffix ";" (trim s) = trim s := by
    rcases eq_nil_or_concat (trim s) with none | ⟨front, last, ends⟩
    · rw [none]
      rfl
    · rw [ends, concat_eq_append] at same ⊢
      have other : ¬ ((';' : UInt8) == last) := fun closes => readAll_semicolon (eq_of_beq closes ▸ same)
      have kept : dropPrefix (";" : Text).reverse (last :: front.reverse) = last :: front.reverse := by
        rw [dropPrefix, show Text.dropPrefix? (";" : Text).reverse (last :: front.reverse) = none from if_neg other]
        rfl
      rw [dropSuffix, reverse_append, reverse_singleton, singleton_append, kept, reverse_cons, reverse_reverse]
  rw [stripComment, whole, kept, same, read]
  exact ⟨rfl, rfl⟩

theorem stripComment_quoted : stripComment ("'\";' //'" : Text) = "'\";'" ∧
    readAll (stripComment ("'\";' //'" : Text)) = readAll "'\";' " := by
  have read : readAll "'\";' " = .ok [.string "\";"] := by decide +kernel
  have bytes : ∀ b ∈ ("'\";' " : Text), b < 0x80 ∧ b ≠ '/' := by decide +kernel
  exact readAll_stripComment read (fun front b back whole _ => (bytes b (by simp [whole])).1)
    ⟨fun front back whole _ => (bytes '/' (whole ▸ mem_append_right front mem_cons_self)).2 rfl,
      fun front whole => (bytes '/' (whole ▸ mem_append_right front mem_cons_self)).2 rfl⟩ "'"

end Token

end ScriptBuild
