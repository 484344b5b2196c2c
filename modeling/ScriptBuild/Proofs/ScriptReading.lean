import Mathlib.Tactic.SplitIfs
import ScriptBuild.Proofs.Phrases

/-! Reading what was written. -/

namespace ScriptBuild

open List

variable {least : Nat} {ts : List Token} {op : BinaryOp} {xs : List Expr}

namespace Grammar

/-- The tokens end an expression whose operators all have precedence `least` or greater. -/
structure Stops (least : Nat) (ts : List Token) : Prop where
  suffix : NoSuffix ts
  operator : Ends least ts

theorem Stops.mono {more : Nat} (stops : Stops least ts) (le : least ≤ more) : Stops more ts :=
  ⟨stops.suffix, fun op found => Nat.lt_of_lt_of_le (stops.operator op found) le⟩

theorem stops_nil (least : Nat) : Stops least [] :=
  ⟨⟨by simp, by simp⟩, by simp [Ends, binaryOp?]⟩

theorem stops_close (least : Nat) (ts : List Token) : Stops least (.symbol .close :: ts) :=
  ⟨⟨by simp, by simp⟩, by simp [Ends, binaryOp?]⟩

theorem stops_comma (least : Nat) (ts : List Token) : Stops least (.symbol .comma :: ts) :=
  ⟨⟨by simp, by simp⟩, by simp [Ends, binaryOp?]⟩

theorem stops_operator (looser : op.precedence < least) (ts : List Token) :
    Stops least (.symbol (.binary op) :: ts) := by
  refine ⟨⟨by simp, by simp⟩, fun other found => ?_⟩
  obtain rfl : op = other := by simpa [binaryOp?] using found
  exact looser

theorem readBinaryFrom_stop (line : Nat) (x : Expr) (stops : Stops least ts) :
    readBinaryFrom line least x ts = .ok (x, ts) := by
  cases ts with
  | nil => exact readBinaryFrom_nil line least x
  | cons t ts =>
    rw [readBinaryFrom_cons]
    cases found : binaryOp? (some t) with
    | none => rfl
    | some op => exact if_pos (stops.operator op found)

theorem readBinaryFrom_operator (line : Nat) (x : Expr) (ts : List Token) (binds : least ≤ op.precedence) :
    readBinaryFrom line least x (.symbol (.binary op) :: ts) =
      (readBinary line (rightLeast op) ts).bind fun (y, rest) => readBinaryFrom line least (.binary line op x y) rest := by
  rw [readBinaryFrom_cons]
  exact if_neg (Nat.not_lt.mpr binds)

theorem precedence_pos (op : BinaryOp) : 1 ≤ op.precedence := by
  cases op <;> decide

theorem precedence_lt (op : BinaryOp) : op.precedence < 8 := by
  cases op <;> decide

/-- What an operator after a phrase must have less precedence than, so that the phrase is its left operand. -/
def edge (level : Nat) : Nat := if level = 1 then 1 else level + 1

/-- Operators of equal precedence group to the same side. -/
theorem leastOf (op : BinaryOp) : rightLeast op = edge op.precedence ∧
    leftLeast op = if op.precedence = 1 then 2 else op.precedence := by
  cases op <;> exact ⟨rfl, rfl⟩

variable {line m n : Nat} {x y : Expr} {us rest : List Token}

theorem lt_edge (tight : leftLeast op ≤ m) : op.precedence < edge m := by
  have positive := precedence_pos op
  rw [(leastOf op).2] at tight
  unfold edge
  split_ifs at tight ⊢ <;> omega

/-- How the tokens of a phrase are read. -/
structure Reads (line n : Nat) (ts rest : List Token) (x : Expr) : Prop where
  level : 1 ≤ n
  first : ts.head? ≠ some (.symbol .close)
  base : n = 9 → readUnary line ts = readSuffixes line x rest
  operand : 8 ≤ n → NoSuffix rest → readUnary line ts = .ok (x, rest)
  between : ∀ least ≤ n, Stops (edge n) rest → readBinary line least ts = readBinaryFrom line least x rest

namespace Reads

theorem of_operand (level : 8 ≤ n) (first : ts.head? ≠ some (.symbol .close))
    (base : n = 9 → readUnary line ts = readSuffixes line x rest)
    (operand : NoSuffix rest → readUnary line ts = .ok (x, rest)) : Reads line n ts rest x := by
  refine ⟨by omega, first, base, fun _ => operand, fun least _ stops => ?_⟩
  rw [readBinary_eq, operand stops.suffix]
  rfl

theorem of_base (first : ts.head? ≠ some (.symbol .close)) (base : readUnary line ts = readSuffixes line x rest) :
    Reads line 9 ts rest x :=
  of_operand (by decide) first (fun _ => base) fun done => by rw [base, readSuffixes_stop line x done]

theorem of_primary {t : Token} (other : t ≠ .symbol .close) (notUnary : unaryOp? (some t) = none)
    (primary : readPrimary line (t :: ts) = .ok (x, rest)) : Reads line 9 (t :: ts) rest x := by
  refine of_base (by simpa using other) ?_
  rw [readUnary_cons, notUnary]
  dsimp only
  rw [primary]
  rfl

theorem unary (op : UnaryOp) (reads : Reads line n ts rest x) (operand : 8 ≤ n) :
    Reads line 8 (Token.ofUnary op :: ts) rest (.unary line op x) := by
  refine of_operand (Nat.le_refl 8) (by cases op <;> nofun) nofun fun done => ?_
  have isUnary : unaryOp? (some (Token.ofUnary op)) = some op := by cases op <;> rfl
  rw [readUnary_cons, isUnary, reads.operand operand done]
  rfl

theorem binary (left : Reads line m ts (.symbol (.binary op) :: us) x) (tight : leftLeast op ≤ m)
    (right : Reads line n us rest y) (fits : rightLeast op ≤ n) :
    Reads line op.precedence ts rest (.binary line op x y) := by
  have least := (leastOf op).1
  have low := precedence_lt op
  have within : op.precedence ≤ m := by
    rw [leftLeast] at tight
    split_ifs at tight <;> omega
  have wider : edge op.precedence ≤ edge n := by
    rw [least] at fits
    unfold edge at fits ⊢
    split_ifs at fits ⊢ <;> omega
  refine ⟨precedence_pos op, left.first, by omega, by omega, fun below binds stops => ?_⟩
  rw [left.between below (by omega) (stops_operator (lt_edge tight) _), readBinaryFrom_operator line x _ binds,
    right.between _ fits (stops.mono wider), readBinaryFrom_stop line y (least ▸ stops)]
  rfl

/-- What is in parentheses is read up to where they end. -/
theorem inner (reads : Reads line n ts rest x) (stops : ∀ least, Stops least rest) :
    readBinary line 1 ts = .ok (x, rest) := by
  rw [reads.between 1 reads.level (stops _), readBinaryFrom_stop line x (stops 1)]

end Reads

theorem TypeName.reads {type whole : Text} (named : TypeName type ts rest whole) :
    readTypeName type ts = .ok (whole, rest) := by
  induction named with
  | done notDot notColon => exact readTypeName_stop _ notDot notColon
  | more joins _ ih => rw [readTypeName_part _ _ _ joins, ih]

theorem TypeName.reads_bare {part type : Text} (named : TypeName part ts rest type) :
    Reads line 8 (.name "new" :: .name part :: ts) rest (.create line type []) := by
  refine .of_operand (Nat.le_refl 8) nofun nofun fun done => ?_
  have created : readCreation line (.name part :: ts) = .ok (.create line type [], rest) := by
    rw [readCreation_name, named.reads]
    dsimp only [Except.bind]
    split
    · exact absurd rfl done.2
    · rfl
  rw [readUnary_cons]
  dsimp only [unaryOp?]
  rw [readPrimary_new, created]
  exact readSuffixes_stop line _ done

/-- How the tokens of arguments are read. -/
structure ReadsArguments (line : Nat) (ts rest : List Token) (xs : List Expr) : Prop where
  all : readArguments line ts = .ok (xs, rest)
  filled : xs ≠ [] → readArgumentsFrom line ts = .ok (xs, rest)

theorem ReadsArguments.of_first (first : ts.head? ≠ some (.symbol .close))
    (read : readArgumentsFrom line ts = .ok (xs, rest)) : ReadsArguments line ts rest xs :=
  ⟨(readArguments_eq line first).trans read, fun _ => read⟩

theorem Reads.last (reads : Reads line n ts (.symbol .close :: rest) x) : ReadsArguments line ts rest [x] := by
  refine .of_first reads.first ?_
  rw [readArgumentsFrom_eq, reads.inner (stops_close · rest)]
  rfl

theorem Reads.more (reads : Reads line n ts (.symbol .comma :: us) x) (others : ReadsArguments line us rest xs)
    (filled : xs ≠ []) : ReadsArguments line ts rest (x :: xs) := by
  refine .of_first reads.first ?_
  rw [readArgumentsFrom_eq, reads.inner (stops_comma · us)]
  dsimp only [Except.bind]
  rw [others.filled filled]
  rfl

mutual

theorem Phrase.reads : ∀ {n ts rest x}, Phrase line n ts rest x → Reads line n ts rest x
  | _, _, _, _, .number text rest => .of_primary nofun rfl (readPrimary_number line text rest)
  | _, _, _, _, .string value rest => .of_primary nofun rfl (readPrimary_string line value rest)
  | _, _, _, _, .name rest plain => .of_primary nofun rfl (readPrimary_name line rest plain)
  | _, _, rest, _, .group phrase => .of_primary nofun rfl (by
      rw [readPrimary_open, phrase.reads.inner (stops_close · rest)]
      rfl)
  | _, _, rest, _, .member phrase =>
    .of_base phrase.reads.first ((phrase.reads.base rfl).trans (readSuffixes_member line _ _ rest))
  | _, _, _, _, .call phrase args => .of_base phrase.reads.first (by
      rw [phrase.reads.base rfl, readSuffixes_call, args.reads.all]
      rfl)
  | _, _, _, _, .create named args => .of_primary nofun rfl (by
      rw [readPrimary_new, readCreation_name, named.reads]
      dsimp only [Except.bind]
      rw [args.reads.all]
      rfl)
  | _, _, _, _, .bare named => named.reads_bare
  | _, _, _, _, .unary op phrase operand => phrase.reads.unary op operand
  | _, _, _, _, .binary left tight right fits => left.reads.binary tight right.reads fits

theorem Arguments.reads : ∀ {ts rest xs}, Arguments line ts rest xs → ReadsArguments line ts rest xs
  | _, _, _, .none rest => ⟨readArguments_close line rest, absurd rfl⟩
  | _, _, _, .last phrase => phrase.reads.last
  | _, _, _, .more phrase args filled => phrase.reads.more args.reads filled

end

theorem Phrase.ofTokens (phrase : Phrase line n ts [] x) : Expr.ofTokens line ts = .ok x := by
  rw [Expr.ofTokens_eq, phrase.reads.inner stops_nil]
  rfl

end Grammar

end ScriptBuild
