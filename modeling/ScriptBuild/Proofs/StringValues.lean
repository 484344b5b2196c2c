import ScriptBuild.Emit.Script
import ScriptBuild.Source.Expression

/-! The values of string literals in the target languages. -/

namespace ScriptBuild

open List Rune

/-- A code point in UTF-16. -/
def Rune.units (code : Nat) : List Nat :=
  if code < 0x10000 then [code] else [0xD800 + (code - 0x10000) / 1024, 0xDC00 + (code - 0x10000) % 1024]

namespace Text

def codes (s : Text) : List Nat := s.runes.map (·.code)

/-- A text in UTF-16. -/
def units (s : Text) : List Nat := s.codes.flatMap Rune.units

end Text

/-! What stands between the quotes of a literal, as code points. -/

namespace StringLiteral

def isDigit (c : Nat) : Bool := 48 ≤ c && c ≤ 57

def isHex (c : Nat) : Bool := isDigit c || (65 ≤ c && c ≤ 70) || (97 ≤ c && c ≤ 102)

def hexValue (digits : List Nat) : Nat :=
  digits.foldl (fun n c => 16 * n + if isDigit c then c - 48 else if c ≤ 70 then c - 55 else c - 87) 0

/-- The value of the hexadecimal digits at the beginning, `width` of them. -/
def hex? (width : Nat) (s : List Nat) : Option Nat :=
  let digits := s.take width
  if digits.length == width && digits.all isHex then some (hexValue digits) else none

/-- A code point in braces, and its number of digits. -/
def braced? (s : List Nat) : Option (Nat × Nat) :=
  let digits := s.takeWhile isHex
  if !digits.isEmpty && s[digits.length]? == some 125 && hexValue digits ≤ 0x10FFFF then
    some (hexValue digits, digits.length)
  else none

def isLineEnd (c : Nat) : Bool := c == 10 || c == 13 || c == 0x2028 || c == 0x2029

/-- The letters of escapes for one code unit. -/
def letters : List (Nat × Nat) := [(98, 8), (116, 9), (110, 10), (118, 11), (102, 12), (114, 13)]

/-- The code units that an escape gives, and how many code points it takes after the backslash. -/
def escape? : List Nat → Option (List Nat × Nat)
  | [] => none
  | c :: s =>
    match letters.lookup c with
    | some unit => some ([unit], 1)
    | none =>
      if c == 120 then (hex? 2 s).map fun n => ([n], 3)
      else if c == 117 then
        if s.head? == some 123 then (braced? s.tail).map fun (n, width) => (units n, width + 3)
        else (hex? 4 s).map fun n => ([n], 5)
      else if isLineEnd c then some ([], if c == 13 && s.head? == some 10 then 2 else 1)
      else if isDigit c then if c == 48 && !s.head?.any isDigit then some ([0], 1) else none
      else some (units c, 1)

/-- The code units of what is read; `skip` counts the code points that belong to an escape. -/
def units? : Nat → List Nat → Option (List Nat)
  | _, [] => some []
  | skip + 1, _ :: s => units? skip s
  | 0, c :: s =>
    if c == 92 then (escape? s).bind fun (units, width) => (units? width s).map (units ++ ·)
    else if c == 34 || c == 10 || c == 13 then none
    else (units? 0 s).map (units c ++ ·)

/-- The value of a literal in double quotes. -/
def value? (t : Text) : Option (List Nat) :=
  match t.codes with
  | 34 :: s => if s.getLast? == some 34 then units? 0 s.dropLast else none
  | _ => none

end StringLiteral

/-! UTF-8 -/

namespace Rune

/-- A code point that can be read wherever its bytes stand, with as few bytes as there can be. -/
structure IsWhole (r : Rune) : Prop where
  read : ∀ s, Text.runes (r.bytes ++ s) = r :: Text.runes s
  short : r.code < 0x80 → r.bytes = [r.code.toUInt8]
  bound : r.code < 0x100000000

variable {b : UInt8} {s : Text} {r : Rune} (tail : Text)

theorem tailBits_lt (b : UInt8) : tailBits b < 64 := Nat.mod_lt _ (by decide)

theorem runes_cons_of_read (same : read b (tail ++ s) = r) (bytes : r.bytes = b :: tail) :
    Text.runes (b :: tail ++ s) = r :: Text.runes s := by
  have skip : ∀ tail s : Text, readAll tail.length (tail ++ s) = readAll 0 s := by
    intro tail s
    induction tail with
    | nil => rfl
    | cons c tail ih => exact ih
  rw [cons_append, Text.runes, readAll, same]
  simp [bytes, skip, Text.runes]

theorem isWhole_ascii (low : b < 0x80) : IsWhole ⟨b.toNat, [b], true⟩ where
  read s := runes_cons_of_read [] (by simp [read, low]) rfl
  short _ := by simp
  bound := by
    have := b.toNat_lt
    simp only
    omega

/-- The second byte of a code point keeps it from being one that fewer bytes could hold. -/
theorem of_secondRange {c : UInt8} (second : (secondRange b).1 ≤ c ∧ c ≤ (secondRange b).2) :
    (b.toNat = 0xE0 → 32 ≤ tailBits c) ∧ (b.toNat = 0xF0 → 16 ≤ tailBits c) := by
  constructor
  · intro same
    obtain rfl : b = 0xE0 := UInt8.toNat_inj.mp same
    have range : 0xA0 ≤ c.toNat ∧ c.toNat ≤ 0xBF := by simpa [secondRange, UInt8.le_iff_toNat_le] using second
    unfold tailBits
    omega
  · intro same
    obtain rfl : b = 0xF0 := UInt8.toNat_inj.mp same
    have range : 0x90 ≤ c.toNat ∧ c.toNat ≤ 0xBF := by simpa [secondRange, UInt8.le_iff_toNat_le] using second
    unfold tailBits
    omega

theorem isWhole_of_long {code : Nat} (same : ∀ rest, read b (tail ++ rest) = ⟨code, b :: tail, true⟩)
    (range : 0x80 ≤ code ∧ code < 0x100000000) : IsWhole ⟨code, b :: tail, true⟩ :=
  ⟨fun s => runes_cons_of_read tail (same s) rfl, fun low => absurd low (Nat.not_lt.mpr range.1), range.2⟩

/-- A byte that begins a code point begins a whole one. -/
theorem isWhole_read : (read b s).valid → (read b s).IsWhole := by
  fun_cases read b s
  case case1 one => exact fun _ => isWhole_ascii one
  case case2 one two c rest follows =>
    refine fun _ => isWhole_of_long [c] (fun rest => by simp [read, one, two, follows]) ?_
    have := tailBits_lt c
    simp only [Bool.and_eq_true, decide_eq_true_eq, UInt8.le_iff_toNat_le, UInt8.reduceToNat] at two
    omega
  case case5 one two three c d rest range follows =>
    refine fun _ => isWhole_of_long [c, d] (fun rest => by simp [read, one, two, three, follows, range]) ?_
    simp only [Bool.and_eq_true, decide_eq_true_eq] at follows
    have := tailBits_lt c
    have := tailBits_lt d
    have := of_secondRange follows.1
    simp only [Bool.and_eq_true, decide_eq_true_eq, UInt8.le_iff_toNat_le, UInt8.reduceToNat] at three
    omega
  case case8 one two three four c d e rest range follows =>
    refine fun _ => isWhole_of_long [c, d, e] (fun rest => by simp [read, one, two, three, four, follows, range]) ?_
    simp only [Bool.and_eq_true, decide_eq_true_eq] at follows
    have := tailBits_lt c
    have := tailBits_lt d
    have := tailBits_lt e
    have := of_secondRange follows.1.1
    simp only [Bool.and_eq_true, decide_eq_true_eq, UInt8.le_iff_toNat_le, UInt8.reduceToNat] at four
    omega
  all_goals exact fun valid => by cases valid

theorem isWhole_of_mem : ∀ {skip}, (readAll skip s).all (·.valid) → r ∈ readAll skip s →
    r.IsWhole := by
  induction s with
  | nil => exact fun _ mem => absurd mem not_mem_nil
  | cons b s ih =>
    intro skip valid mem
    cases skip with
    | succ skip => exact ih valid mem
    | zero =>
      rw [readAll, all_cons, Bool.and_eq_true] at valid
      rcases mem_cons.mp mem with rfl | later
      · exact isWhole_read valid.1
      · exact ih valid.2 later

end Rune

namespace Text

theorem codes_ascii {t : Text} (low : ∀ b ∈ t, b < 0x80) (s : Text) : (t ++ s).codes = t.map (·.toNat) ++ s.codes := by
  induction t with
  | nil => rfl
  | cons b t ih =>
    obtain ⟨here, rest⟩ := forall_mem_cons.mp low
    have first := (isWhole_ascii here).read (t ++ s)
    simp only [codes, cons_append, nil_append] at first ih ⊢
    rw [first, map_cons, ih rest, map_cons, cons_append]

/-- The digits of a number, the last one apart. -/
theorem ofHex_succ {width : Nat} (positive : 0 < width) (n : Nat) :
    ofHex (width + 1) n = ofHex width (n / 16) ++ [(n % 16).digitChar.toUInt8] := by
  unfold ofHex
  rw [Nat.toDigits_eq_if (by decide)]
  split
  · rename_i small
    obtain ⟨width, rfl⟩ := Nat.exists_eq_add_of_lt positive
    simp [Nat.div_eq_of_lt small, Nat.mod_eq_of_lt small, replicate_succ']
    rfl
  · simp [Nat.add_sub_add_right]

end Text

namespace StringLiteral

open Text

/-- Hexadecimal digits are written as the target languages read them. -/
theorem ofHex_digits (width : Nat) : ∀ n < Nat.pow 16 (width + 1),
    (ofHex (width + 1) n).length = width + 1 ∧ (∀ b ∈ ofHex (width + 1) n, b < 0x80 ∧ isHex b.toNat) ∧
      hexValue ((ofHex (width + 1) n).map (·.toNat)) = n := by
  have digit : ∀ d < 16, (d.digitChar.toUInt8 < 0x80 ∧ isHex d.digitChar.toUInt8.toNat) ∧
      ∀ ds, hexValue (ds ++ [d.digitChar.toUInt8.toNat]) = 16 * hexValue ds + d := by
    intro d small
    have checked : (d.digitChar.toUInt8 < 0x80 ∧ isHex d.digitChar.toUInt8.toNat) ∧
        hexValue [d.digitChar.toUInt8.toNat] = d := by
      revert d
      decide
    refine ⟨checked.1, fun ds => ?_⟩
    simpa [hexValue] using checked.2
  induction width with
  | zero =>
    intro n small
    have low : n < 16 := small
    have one : ofHex 1 n = [n.digitChar.toUInt8] := by simp [ofHex, Nat.toDigits_of_lt_base low]
    rw [one]
    exact ⟨rfl, by simpa using (digit n low).1, by simpa [hexValue] using (digit n low).2 []⟩
  | succ width ih =>
    intro n small
    obtain ⟨length, hex, value⟩ := ih (n / 16) (Nat.div_lt_of_lt_mul (Nat.mul_comm _ 16 ▸ small))
    obtain ⟨last, next⟩ := digit (n % 16) (Nat.mod_lt n (by decide))
    rw [ofHex_succ width.succ_pos]
    refine ⟨by simp [length], fun b mem => ?_, ?_⟩
    · rcases mem_append.mp mem with front | back
      · exact hex b front
      · exact mem_singleton.mp back ▸ last
    · rw [map_append, map_singleton, next, value]
      omega

/-- A text that stands for some code units within a literal, whatever comes after it. -/
def Denotes (t : Text) (units : List Nat) : Prop :=
  ∃ cs, (∀ s, (t ++ s).codes = cs ++ s.codes) ∧ ∀ s, units? 0 (cs ++ s) = (units? 0 s).map (units ++ ·)

namespace Denotes

variable {t : Text} {units : List Nat}

theorem nil : Denotes [] [] := ⟨[], fun _ => rfl, fun s => by simp⟩

theorem append {u : Text} {more : List Nat} (first : Denotes t units) (second : Denotes u more) :
    Denotes (t ++ u) (units ++ more) := by
  obtain ⟨cs, spelled, read⟩ := first
  obtain ⟨ds, further, next⟩ := second
  refine ⟨cs ++ ds, fun s => ?_, fun s => ?_⟩
  · rw [append_assoc, spelled, further, append_assoc]
  · rw [append_assoc, read, next]
    simp [Function.comp_def]

theorem flatMap {α : Type} {xs : List α} {f : α → Text} {g : α → List Nat} (each : ∀ x ∈ xs, Denotes (f x) (g x)) :
    Denotes (xs.flatMap f) (xs.flatMap g) := by
  induction xs with
  | nil => exact .nil
  | cons x xs ih =>
    obtain ⟨here, rest⟩ := forall_mem_cons.mp each
    exact here.append (ih rest)

/-- A code point that is neither a quote nor a backslash nor the end of a line stands for itself. -/
theorem rune {r : Rune} (whole : r.IsWhole) (plain : r.code ∉ [34, 92, 10, 13]) :
    Denotes r.bytes (Rune.units r.code) := by
  simp only [mem_cons, not_or] at plain
  exact ⟨[r.code], fun s => by simp [codes, whole.read], fun s => by simp [units?, plain]⟩

/-- An escape after its backslash. -/
theorem escape (low : ∀ b ∈ t, b < 0x80)
    (read : ∀ s, escape? (t.map (·.toNat) ++ s) = some (units, t.length)) : Denotes (92 :: t) units := by
  have skip : ∀ (t : Text) s, units? t.length (t.map (·.toNat) ++ s) = units? 0 s := by
    intro t s
    induction t with
    | nil => rfl
    | cons b t ih => exact ih
  refine ⟨92 :: t.map (·.toNat), fun s => codes_ascii (forall_mem_cons.mpr ⟨by decide, low⟩) s, fun s => ?_⟩
  simp [units?, read, skip]

/-- A code unit by its hexadecimal digits. -/
theorem hex (letter : UInt8) {width n : Nat} (low : letter < 0x80) (small : n < Nat.pow 16 (width + 1))
    (read : ∀ s, hex? (width + 1) s = some n → escape? (letter.toNat :: s) = some ([n], width + 2)) :
    Denotes (92 :: letter :: ofHex (width + 1) n) [n] := by
  obtain ⟨length, digits, value⟩ := ofHex_digits width n small
  refine escape (forall_mem_cons.mpr ⟨low, fun b mem => (digits b mem).1⟩) fun s => ?_
  have front : ((ofHex (width + 1) n).map (·.toNat) ++ s).take (width + 1) = (ofHex (width + 1) n).map (·.toNat) :=
    take_left' (by simpa using length)
  have found : hex? (width + 1) ((ofHex (width + 1) n).map (·.toNat) ++ s) = some n := by
    simp only [hex?, front, value]
    simpa [length] using fun b mem => (digits b mem).2
  rw [map_cons, cons_append, read _ found, length_cons, length]

theorem hex_two {n : Nat} (small : n < 256) : Denotes ("\\x" ++ ofHex 2 n) [n] :=
  hex 120 (by decide) small fun s found => by
    have other : letters.lookup 120 = none := by decide
    simp [escape?, other, found]

theorem hex_four {n : Nat} (small : n < 0x10000) : Denotes ("\\u" ++ ofHex 4 n) [n] := by
  refine hex 117 (by decide) small fun s found => ?_
  have digit : s.head? ≠ some 123 := by
    intro brace
    obtain ⟨rest, rfl⟩ := head?_eq_some_iff.mp brace
    simp [hex?, isHex, isDigit] at found
  have other : letters.lookup 117 = none := by decide
  simp [escape?, other, found, digit]

/-- Hexadecimal digits stand for themselves. -/
theorem digits (low : ∀ b ∈ t, b < 0x80 ∧ isHex b.toNat) : Denotes t (t.map (·.toNat)) := by
  have each : ∀ b ∈ t, Denotes [b] [b.toNat] := by
    intro b mem
    have small : b.toNat < 0x10000 := Nat.lt_trans b.toNat_lt (by decide)
    have plain : b.toNat ∉ [34, 92, 10, 13] := by
      intro special
      have digit := (low b mem).2
      simp only [mem_cons, not_mem_nil, or_false] at special
      rcases special with same | same | same | same <;> simp [same, isHex, isDigit] at digit
    simpa [Rune.units, small] using rune (Rune.isWhole_ascii (low b mem).1) plain
  simpa [← map_eq_flatMap] using flatMap each

end Denotes

/-- Whether a code point is not one of those whose escapes the target languages do not have. -/
def IsKept (code : Nat) : Prop := code ≠ 7 ∧ (code < 0x10000 ∨ isPrintable code)

instance (code : Nat) : Decidable (IsKept code) := inferInstanceAs (Decidable (_ ∧ _))

/-- What is read for a code point that was written: the letters `a` and `U` for escapes that are not known. -/
def reading (code : Nat) : List Nat :=
  if IsKept code then units code else if code = 7 then [97] else 85 :: (ofHex 8 code).map (·.toNat)

theorem reading_of_short {code : Nat} (other : code ≠ 7) (small : code < 0x10000) : reading code = [code] := by
  rw [reading, if_pos ⟨other, .inl small⟩, Rune.units, if_pos small]

theorem denotes_escape {code : Nat} (hidden : isPrintable code = false) (bound : code < 0x100000000) :
    Denotes (escape code) (reading code) := by
  have letter : ∀ {b : UInt8} {units : List Nat}, b < 0x80 → (∀ s, escape? (b.toNat :: s) = some (units, 1)) →
      Denotes [92, b] units := fun low read => .escape (by simpa using low) read
  unfold escape
  split
  iterate 7 exact letter (by decide) fun _ => rfl
  rename_i bell _ _ _ _ _ _
  have other : code ≠ 7 := bell
  split
  · rename_i control
    simp only [Bool.or_eq_true, decide_eq_true_eq, beq_iff_eq] at control
    rw [reading_of_short other (by omega)]
    exact .hex_two (by omega)
  · split
    · rename_i small
      rw [reading_of_short other small]
      exact .hex_four small
    · rename_i large
      have lost : ¬ IsKept code := fun kept => by simpa [large, hidden] using kept.2
      have same : reading code = [85] ++ (ofHex 8 code).map (·.toNat) := by simp [reading, lost, other]
      rw [same]
      exact (letter (by decide) fun _ => rfl).append (.digits (ofHex_digits 7 code bound).2.1)

theorem denotes_quoted {r : Rune} (valid : r.valid) (whole : r.IsWhole) : Denotes (r.quoted '"') (reading r.code) := by
  have ascii : ∀ {b : UInt8}, b < 0x80 → r.bytes = [b] → r.code = b.toNat := by
    intro b low bytes
    have first := (isWhole_ascii low).read []
    rw [← bytes, whole.read []] at first
    rw [(List.cons.inj first).1]
  unfold quoted
  simp only [valid, Bool.not_true, Bool.false_eq_true, if_false]
  split
  · rename_i marked
    rcases Bool.or_eq_true_iff.mp marked with quote | backslash
    · rw [ascii (by decide) (beq_iff_eq.mp quote), beq_iff_eq.mp quote]
      exact .escape (forall_mem_singleton.mpr (by decide)) fun _ => rfl
    · rw [ascii (b := 92) (by decide) (beq_iff_eq.mp backslash), beq_iff_eq.mp backslash]
      exact .escape (forall_mem_singleton.mpr (by decide)) fun _ => rfl
  · rename_i unmarked
    split
    · rename_i printable
      have controls : ∀ code ∈ [7, 10, 13], isPrintable code = false := by decide
      have shown : ∀ code ∈ [7, 10, 13], r.code ≠ code := by
        intro code control same
        rw [same, controls code control] at printable
        cases printable
      rw [reading, if_pos ⟨shown 7 (by decide), Or.inr printable⟩]
      refine .rune whole fun special => ?_
      simp only [mem_cons, not_mem_nil, or_false] at special
      rcases special with same | same | same | same
      · exact unmarked (by rw [whole.short (by omega), same]; rfl)
      · exact unmarked (by rw [whole.short (by omega), same]; rfl)
      · exact shown 10 (by decide) same
      · exact shown 13 (by decide) same
    · rename_i hidden
      exact denotes_escape (by simpa using hidden) whole.bound

/-- What the literal for a text is read as. -/
theorem value?_quote {s : Text} (valid : s.isUtf8) : value? s.quote = some (s.codes.flatMap reading) := by
  have each : ∀ r ∈ s.runes, Denotes (r.quoted '"') (reading r.code) := fun r mem =>
    denotes_quoted (all_eq_true.mp valid r mem) (isWhole_of_mem valid mem)
  obtain ⟨cs, spelled, read⟩ := Denotes.flatMap each
  have whole : s.quote.codes = 34 :: (cs ++ [34]) := by
    rw [quote, append_assoc, codes_ascii (t := "\"") (forall_mem_singleton.mpr (by decide)), spelled]
    rfl
  have value := read []
  simp only [append_nil, units?] at value
  simp only [value?, whole]
  simp [value, codes, flatMap_map]

theorem flatMap_reading_eq_iff (codes : List Nat) :
    codes.flatMap reading = codes.flatMap Rune.units ↔ ∀ code ∈ codes, IsKept code := by
  induction codes with
  | nil => simp
  | cons code codes ih =>
    rw [flatMap_cons, flatMap_cons, forall_mem_cons, ← ih]
    by_cases kept : IsKept code
    · rw [reading]
      simp [kept]
    · refine iff_of_false (fun same => ?_) fun all => kept all.1
      -- the first code unit is another one already
      have first := congrArg head? same
      rw [reading, if_neg kept, Rune.units] at first
      by_cases bell : code = 7
      · simp [bell] at first
      · have large : ¬ code < 0x10000 := fun small => kept ⟨bell, .inl small⟩
        simp only [bell, large, if_false, cons_append, head?_cons, Option.some_inj] at first
        omega

end StringLiteral

open StringLiteral in
/-- A string literal that is written for a valid text denotes it exactly if there is no bell in it, and no code point
beyond the first plane that is not printable. -/
theorem Expr.value?_script_iff (style : ScriptStyle) (scope : Scope) (line : Nat) {value : Text} (valid : value.isUtf8) :
    value? ((Expr.literal line .string value).script style scope) = some value.units ↔
      ∀ code ∈ value.codes, code ≠ 7 ∧ (code < 0x10000 ∨ isPrintable code) := by
  have written : (Expr.literal line .string value).script style scope = value.quote := by simp [Expr.script]
  rw [written, value?_quote valid, Option.some_inj]
  exact flatMap_reading_eq_iff value.codes

open StringLiteral in
theorem Expr.value?_script_smile : Text.isUtf8 "\"é\n😀" ∧
    value? ((Expr.literal 1 .string "\"é\n😀").script ⟨fun _ => "let ", id⟩ {}) = some (Text.units "\"é\n😀") :=
  ⟨by decide, (Expr.value?_script_iff _ _ 1 (by decide)).mpr (by decide +kernel)⟩

open StringLiteral in
/-- A bell between quotes comes out as a letter. -/
theorem Expr.value?_script_bell : Expr.parse 1 "\"\x07\"" = .ok (.literal 1 .string "\x07") ∧
    ∀ style scope, value? ((Expr.literal 1 .string "\x07").script style scope) = some [97] := by
  refine ⟨by cbv, fun style scope => ?_⟩
  have written : (Expr.literal 1 .string "\x07").script style scope = "\"\\a\"" := by
    simp only [Expr.script]
    decide
  rw [written]
  decide

end ScriptBuild
