import ScriptBuild.Emit.Script
import ScriptBuild.Proofs.TokenLeaves

/-! Operators keep their grouping, but not as bases of member accesses and calls. -/

namespace ScriptBuild

open List Text Grammar Expr

variable {first b : UInt8} {s word : Text}

namespace Text

theorem replaceFrom_cons (other : b ≠ first) (old new s : Text) :
    replaceFrom (first :: old) new 0 (b :: s) = b :: replaceFrom (first :: old) new 0 s := by
  have starts : startsWith (b :: s) (first :: old) = false := by
    simp [startsWith, dropPrefix?, other.symm]
  rw [replaceFrom, starts]
  rfl

theorem replaceFrom_append (absent : first ∉ s) (old new rest : Text) :
    replaceFrom (first :: old) new 0 (s ++ rest) = s ++ replaceFrom (first :: old) new 0 rest := by
  induction s with
  | nil => rfl
  | cons b s ih =>
    rw [mem_cons, not_or] at absent
    rw [cons_append, replaceFrom_cons (Ne.symm absent.1), ih absent.2]
    rfl

def looseEquality (s : Text) : Text := replaceAll "===" "==" (replaceAll "!==" "!=" s)

theorem looseEquality_append (noEquals : ('=' : UInt8) ∉ s) (noBang : ('!' : UInt8) ∉ s) (rest : Text) :
    looseEquality (s ++ rest) = s ++ looseEquality rest := by
  have inner : replaceAll "!==" "!=" (s ++ rest) = s ++ replaceAll "!==" "!=" rest :=
    replaceFrom_append noBang "==" "!=" rest
  rw [looseEquality, inner]
  exact replaceFrom_append noEquals "==" "==" _

/-- Another byte than an equals sign stays where it is. -/
theorem exists_looseEquality_eq_cons (other : b ≠ '=') (s : Text) : ∃ rest, looseEquality (b :: s) = b :: rest := by
  have inner : ∃ t, replaceAll "!==" "!=" (b :: s) = b :: t := by
    by_cases bang : b = '!'
    · rw [bang, replaceAll, replaceFrom]
      split
      · exact ⟨_, rfl⟩
      · exact ⟨_, rfl⟩
    · exact ⟨_, replaceFrom_cons bang "==" "!=" s⟩
  obtain ⟨t, same⟩ := inner
  rw [looseEquality, same]
  exact ⟨_, replaceFrom_cons other "==" "==" t⟩

theorem looseEquality_bang (other : b ≠ '=') (s : Text) :
    looseEquality ("!" ++ b :: s) = "!" ++ looseEquality (b :: s) := by
  have starts : startsWith ("!" ++ b :: s) "!==" = false := by
    have differs : (('=' : UInt8) == b) = false := beq_eq_false_iff_ne.mpr other.symm
    change (if ('=' : UInt8) == b then dropPrefix? "=" s else none).isSome = false
    rw [differs]
    rfl
  have inner : replaceAll "!==" "!=" ("!" ++ b :: s) = "!" ++ replaceAll "!==" "!=" (b :: s) := by
    change (if startsWith ("!" ++ b :: s) "!==" then _ else _) = _
    rw [starts]
    rfl
  rw [looseEquality, inner]
  rfl

end Text

namespace Token

def run (mode : Mode) (tokens : List Token) (s : Text) : Except ReadError (List Token) :=
  (s.foldlM step ⟨mode, tokens⟩).bind settle

theorem run_cons (mode : Mode) (tokens : List Token) (b : UInt8) (s : Text) : run mode tokens (b :: s) =
      (step ⟨mode, tokens⟩ b).bind fun r => run r.mode r.tokens s := by
  unfold run
  rw [foldlM_cons]
  cases step ⟨mode, tokens⟩ b <;> rfl

def readStrict (tokens : List Token) (s : Text) : Except ReadError (List Token) :=
  run .between tokens (Text.looseEquality s)

/-- A kind of tokens that last as long as bytes continue them. -/
structure WordKind where
  mode : Text → Mode
  token : Text → Token
  continues : UInt8 → Bool
  next : ∀ read tokens b, step ⟨mode read, tokens⟩ b =
    if continues b then .ok ⟨mode (b :: read), tokens⟩ else begin (token read.reverse :: tokens) b
  last : ∀ read tokens, settle ⟨mode read, tokens⟩ = .ok (token read.reverse :: tokens)
  apart : ∀ b, continues b → b ∉ ("=! )" : Text)

def WordKind.name : WordKind where
  mode := .name
  token := .name
  continues := continuesName
  next := fun _ _ _ => rfl
  last := fun _ _ => rfl
  apart := by
    intro b continues
    have bytes := of_all_bytes (P := fun b => continuesName b → b ∉ ("=! )" : Text)) (by decide +kernel) b
    exact of_decide_eq_true bytes continues

def WordKind.number : WordKind where
  mode := .number
  token := .number
  continues := continuesNumber
  next := fun _ _ _ => rfl
  last := fun _ _ => rfl
  apart := by
    intro b continues
    have bytes := of_all_bytes (P := fun b => continuesNumber b → b ∉ ("=! )" : Text)) (by decide +kernel) b
    exact of_decide_eq_true bytes continues

theorem run_word (kind : WordKind) (tokens : List Token)
    (ends : ∀ b, s.head? = some b → kind.continues b = false) (word : Text) :
    ∀ read : Text, (∀ b ∈ word, kind.continues b) → run (kind.mode read) tokens (word ++ s) =
        run .between (kind.token (read.reverse ++ word) :: tokens) s := by
  induction word with
  | nil =>
    intro read _
    rw [append_nil, nil_append]
    cases s with
    | nil => exact kind.last read tokens
    | cons b s =>
      rw [run_cons, run_cons, kind.next, ends b rfl]
      rfl
  | cons b word ih =>
    intro read each
    obtain ⟨first, each⟩ := forall_mem_cons.mp each
    have others := ih (b :: read) each
    rw [reverse_cons, append_assoc] at others
    rw [cons_append, run_cons, kind.next, if_pos first]
    exact others

/-- Text that ends the word before it. -/
def EndsWord (s : Text) : Prop := ∀ b, s.head? = some b → b ∈ (" )" : Text)

theorem endsWord_cons (ends : b ∈ (" )" : Text)) (s : Text) : EndsWord (b :: s) :=
  fun _ same => Option.some.inj same ▸ ends

theorem EndsWord.looseEquality (ends : EndsWord s) : EndsWord (looseEquality s) := by
  cases s with
  | nil => exact ends
  | cons b s =>
    have known := ends b rfl
    have other : b ≠ '=' := by
      rintro rfl
      exact absurd known (by decide)
    obtain ⟨rest, same⟩ := exists_looseEquality_eq_cons other s
    exact same ▸ endsWord_cons known rest

theorem EndsWord.stops (ends : EndsWord s) (kind : WordKind) : ∀ b, s.head? = some b → kind.continues b = false :=
  fun b head => Bool.eq_false_iff.mpr fun continues => kind.apart b continues (.tail _ (.tail _ (ends b head)))

theorem begin_name (starts : startsName b) (tokens : List Token) : begin tokens b = .ok ⟨.name [b], tokens⟩ := by
  have apart := of_all_bytes (P := fun b => !startsName b ||
    !(isBlankByte b || (b == '"' || b == '\'') || isDigit b)) (by decide +kernel) b
  simp only [starts, Bool.not_true, Bool.false_or, Bool.not_eq_true', Bool.or_eq_false_iff] at apart
  simp [begin, apart, starts]

theorem begin_number (digit : Text.isDigit b) (tokens : List Token) : begin tokens b = .ok ⟨.number [b], tokens⟩ := by
  have apart := of_all_bytes (P := fun b => !isDigit b ||
    !(isBlankByte b || (b == '"' || b == '\''))) (by decide +kernel) b
  simp only [digit, Bool.not_true, Bool.false_or, Bool.not_eq_true', Bool.or_eq_false_iff] at apart
  simp [begin, apart, digit]

/-- A word of a kind, whatever was read before it. -/
structure WordKind.IsWord (kind : WordKind) (word : Text) : Prop where
  each : ∀ c ∈ word, kind.continues c
  first : ∃ b s, word = b :: s ∧ ∀ tokens, begin tokens b = .ok ⟨kind.mode [b], tokens⟩

theorem isWord_name (isWord : isName word) : WordKind.name.IsWord word := by
  refine ⟨continuesName_of_mem isWord, ?_⟩
  cases word with
  | nil => cases isWord
  | cons b s => exact ⟨b, s, rfl, begin_name (Bool.and_eq_true_iff.mp isWord).1⟩

theorem isWord_number (isWord : isNumber word) : WordKind.number.IsWord word := by
  cases word with
  | nil => cases isWord
  | cons b s =>
    simp only [isNumber, Bool.and_eq_true, all_eq_true] at isWord
    exact ⟨forall_mem_cons.mpr ⟨by simp [WordKind.number, continuesNumber, isWord.1], isWord.2⟩,
      b, s, rfl, begin_number isWord.1⟩

theorem WordKind.IsWord.exists_eq_cons {kind : WordKind} (isWord : kind.IsWord word) : ∃ b s, word = b :: s ∧ b ≠ '=' := by
  obtain ⟨each, b, s, rfl, -⟩ := isWord
  refine ⟨b, s, rfl, ?_⟩
  rintro rfl
  exact kind.apart _ (each _ mem_cons_self) (by decide)

/-- Before `rest`, the text `s` is read as the tokens `ts`. -/
def Lexes (s : Text) (ts : List Token) (rest : Text) : Prop :=
  ∀ tokens, readStrict tokens (s ++ rest) = readStrict (ts.reverse ++ tokens) rest

variable {t rest : Text} {ts us : List Token}

theorem Lexes.append (first : Lexes s ts (t ++ rest)) (second : Lexes t us rest) :
    Lexes (s ++ t) (ts ++ us) rest := by
  intro tokens
  rw [append_assoc, first, second, reverse_append, append_assoc]

theorem lexes_word {kind : WordKind} (isWord : kind.IsWord word) (ends : EndsWord rest) :
    Lexes word [kind.token word] rest := by
  intro tokens
  have noEquals : ('=' : UInt8) ∉ word := fun mem => kind.apart _ (isWord.each _ mem) (by decide)
  have noBang : ('!' : UInt8) ∉ word := fun mem => kind.apart _ (isWord.each _ mem) (by decide)
  rw [readStrict, looseEquality_append noEquals noBang]
  obtain ⟨each, b, s, rfl, first⟩ := isWord
  rw [cons_append, run_cons]
  change (begin tokens b).bind _ = _
  rw [first]
  exact run_word kind tokens (ends.looseEquality.stops kind) s [b] (forall_mem_cons.mp each).2

theorem lexes_operator (op : BinaryOp) (rest : Text) :
    Lexes (" " ++ (op.scriptText ++ " ")) [.symbol (.binary op)] rest := by
  cases op <;> exact fun _ => rfl

theorem pairSymbol?_bang (other : b ≠ '=') : pairSymbol? '!' b = none := by
  have bytes := of_all_bytes (P := fun b => b == '=' || (pairSymbol? '!' b).isNone) (by decide +kernel) b
  simpa [other] using bytes

/-- A `!` stands alone unless an equals sign follows it. -/
theorem lexes_bang (alone : b ≠ '=') (s : Text) : Lexes "!" [.symbol .bang] (b :: s) := by
  intro tokens
  obtain ⟨rest, head⟩ := exists_looseEquality_eq_cons alone s
  unfold readStrict
  rw [looseEquality_bang alone s, head]
  change run (.half '!') tokens (b :: rest) = run .between (.symbol .bang :: tokens) (b :: rest)
  rw [run_cons, run_cons]
  simp only [step, pairSymbol?_bang alone]
  rfl

def grouped (b : Bool) (ts : List Token) : List Token :=
  if b then .symbol .open :: (ts ++ [.symbol .close]) else ts

theorem lexes_grouped (inner : ∀ rest, EndsWord rest → Lexes s ts rest) (b : Bool) (ends : EndsWord rest) :
    Lexes (inParens b s) (grouped b ts) rest := by
  cases b with
  | false => exact inner rest ends
  | true =>
    have opens : ∀ rest, Lexes "(" [.symbol .open] rest := fun _ _ => rfl
    have closes : ∀ rest, Lexes ")" [.symbol .close] rest := fun _ _ => rfl
    exact ((opens _).append (inner _ (endsWord_cons (by decide) rest))).append (closes rest)

end Token

namespace Expr

/-- Trees of operators over names, numbers, truth values and null. -/
inductive OfOperators : Expr → Prop where
  | ident {line : Nat} {name : Text} : Token.isName name → name ∉ (["true", "false", "null", "new"] : List Text) →
      OfOperators (.ident line name)
  | number {line : Nat} {value : Text} : Token.isNumber value → OfOperators (.literal line .number value)
  | bool {line : Nat} {value : Text} : value = "true" ∨ value = "false" → OfOperators (.literal line .bool value)
  | null {line : Nat} : OfOperators (.literal line .null "null")
  | binary {line : Nat} {op : BinaryOp} {x y : Expr} : OfOperators x → OfOperators y → OfOperators (.binary line op x y)
  | unary {line : Nat} {op : UnaryOp} {x : Expr} : OfOperators x → OfOperators (.unary line op x)

mutual

def atLine (line : Nat) : Expr → Expr
  | .ident _ name => .ident line name
  | .literal _ kind value => .literal line kind value
  | .binary _ op x y => .binary line op (atLine line x) (atLine line y)
  | .unary _ op x => .unary line op (atLine line x)
  | .call _ f args => .call line (atLine line f) (allAtLine line args)
  | .member _ x name => .member line (atLine line x) name
  | .create _ type args => .create line type (allAtLine line args)

def allAtLine (line : Nat) : List Expr → List Expr
  | [] => []
  | x :: xs => atLine line x :: allAtLine line xs

end

def tokens : Expr → List Token
  | .binary _ op x y =>
    Token.grouped (needsParens op.precedence op.groupsRight x) (tokens x) ++
      .symbol (.binary op) :: Token.grouped (needsParens op.precedence (!op.groupsRight) y) (tokens y)
  | .unary _ op x => Token.ofUnary op :: Token.grouped (isBinary x) (tokens x)
  | e => e.leaves

/-- The level of a tree without parentheses around it. -/
def level : Expr → Nat
  | .binary _ op _ _ => op.precedence
  | .unary _ _ _ => 8
  | _ => 9

variable {e : Expr} {line : Nat}

theorem le_level_of_isBinary (bare : e.isBinary = false) : 8 ≤ e.level := by
  cases e with
  | binary => cases bare
  | _ => simp [level]

theorem le_level_of_needsParens {p : Nat} (small : p < 8) {strict : Bool} {e : Expr}
    (bare : e.needsParens p strict = false) : (if strict then p + 1 else p) ≤ e.level := by
  cases e with
  | binary spot inner x y =>
    simp only [needsParens, Bool.or_eq_false_iff, Bool.and_eq_false_iff, decide_eq_false_iff_not,
      beq_eq_false_iff_ne] at bare
    rw [level]
    cases strict <;> simp at bare ⊢ <;> omega
  | _ =>
    simp only [level]
    split <;> omega

theorem rightLeast_eq (op : BinaryOp) :
    rightLeast op = if !op.groupsRight then op.precedence + 1 else op.precedence := by
  cases op <;> rfl

/-- The tokens of a tree are a phrase, whatever follows them. -/
def IsPhrase (line : Nat) (e : Expr) : Prop := ∀ rest, Phrase line e.level (e.tokens ++ rest) rest (e.atLine line)

/-- An operand is in parentheses, or has the level that its operator asks for. -/
theorem IsPhrase.grouped (phrase : e.IsPhrase line) {b : Bool} {least : Nat} (small : least ≤ 9)
    (tight : b = false → least ≤ e.level) (rest : List Token) :
    ∃ n, Phrase line n (Token.grouped b e.tokens ++ rest) rest (e.atLine line) ∧ least ≤ n := by
  cases b with
  | false => exact ⟨_, phrase rest, tight rfl⟩
  | true =>
    have inner := (phrase (.symbol .close :: rest)).group
    exact ⟨9, by simpa [Token.grouped] using inner, small⟩

namespace OfOperators

open Token

theorem isPhrase (operators : e.OfOperators) (line : Nat) : e.IsPhrase line := by
  have word : ∀ {s : Text} {x rest}, s ≠ "new" → ofName line s = x → Phrase line 9 (.name s :: rest) rest x :=
    fun other same => same ▸ .name _ other
  induction operators with
  | ident _ other =>
    simp only [mem_cons, not_or] at other
    obtain ⟨notTrue, notFalse, notNull, notNew, _⟩ := other
    exact fun rest => word notNew (by simp [ofName, notTrue, notFalse, notNull, atLine])
  | number => exact fun rest => .number _ rest
  | bool truth =>
    rcases truth with rfl | rfl
    · exact fun rest => word (by decide) rfl
    · exact fun rest => word (by decide) rfl
  | null => exact fun rest => word (by decide) rfl
  | @binary spot op x y _ _ left right =>
    intro rest
    obtain ⟨n, second, fits⟩ := right.grouped (Nat.le_succ_of_le (rightLeast_le op))
      (fun bare => rightLeast_eq op ▸ le_level_of_needsParens (precedence_lt op) bare) rest
    obtain ⟨m, first, tight⟩ := left.grouped (Nat.le_succ_of_le (leftLeast_le op))
      (le_level_of_needsParens (precedence_lt op)) (.symbol (.binary op) :: _)
    rw [tokens, append_assoc]
    exact .binary first tight second fits
  | @unary spot op x _ operand =>
    intro rest
    obtain ⟨n, inner, tight⟩ := operand.grouped (by decide) le_level_of_isBinary rest
    exact .unary op inner tight

variable (operators : e.OfOperators) (style : ScriptStyle)

include operators

/-- The first byte is no equals sign, so a `!` before it stands alone. -/
theorem exists_script_eq_cons : ∃ b s, e.script style {} = b :: s ∧ b ≠ '=' := by
  induction operators with
  | ident isName _ => exact (isWord_name isName).exists_eq_cons
  | number isNumber => exact (isWord_number isNumber).exists_eq_cons
  | bool truth =>
    rcases truth with rfl | rfl
    · exact ⟨_, _, rfl, by decide⟩
    · exact ⟨_, _, rfl, by decide⟩
  | null => exact ⟨_, _, rfl, by decide⟩
  | @binary line op x y _ _ left _ =>
    obtain ⟨b, s, text, other⟩ := left
    rw [script, text]
    cases needsParens op.precedence op.groupsRight x with
    | true => exact ⟨_, _, rfl, by decide⟩
    | false => exact ⟨b, _, rfl, other⟩
  | @unary line op x _ _ => cases op <;> exact ⟨_, _, rfl, by decide⟩

theorem lexes_ofUnary (op : UnaryOp) (b : Bool) (rest : Text) :
    Lexes op.text [Token.ofUnary op] (inParens b (e.script style {}) ++ rest) := by
  cases op with
  | neg => exact fun _ => rfl
  | not =>
    obtain ⟨first, s, text, other⟩ := operators.exists_script_eq_cons style
    rw [text]
    cases b with
    | true => exact lexes_bang (b := '(') (by decide) _
    | false => exact lexes_bang other _

theorem lexes : ∀ rest, EndsWord rest → Lexes (e.script style {}) e.tokens rest := by
  have name : ∀ word : Text, isName word → ∀ rest, EndsWord rest → Lexes word [.name word] rest :=
    fun word isName rest => lexes_word (isWord_name isName)
  induction operators with
  | ident isName _ => exact name _ isName
  | number isNumber => exact fun rest => lexes_word (isWord_number isNumber)
  | bool truth =>
    rcases truth with rfl | rfl
    · exact name "true" (by decide)
    · exact name "false" (by decide)
  | null => exact name "null" (by decide)
  | @binary line op x y _ _ left right =>
    intro rest ends
    rw [script, tokens, append_cons, append_assoc _ op.scriptText, append_assoc (inParens _ _)]
    refine Lexes.append (.append ?_ ?_) (lexes_grouped right _ ends)
    · exact lexes_grouped left _ (endsWord_cons (b := ' ') (by decide) _)
    · exact lexes_operator op _
  | @unary line op x operators operand =>
    intro rest ends
    exact (operators.lexes_ofUnary style op _ rest).append (lexes_grouped operand x.isBinary ends)

end OfOperators

/-- Operators keep their grouping: the text of every tree of operators, read with strict equality as
equality, parses, and to the same tree. -/
theorem OfOperators.parse_script (operators : e.OfOperators) (style : ScriptStyle) (line : Nat) :
    parse line (Text.looseEquality (e.script style {})) = .ok (e.atLine line) := by
  have read : Token.readAll (Text.looseEquality (e.script style {})) = .ok e.tokens := by
    have lexed := operators.lexes style [] nofun []
    rw [List.append_nil, List.append_nil] at lexed
    have all : Token.readStrict e.tokens.reverse [] = .ok e.tokens.reverse := rfl
    rw [all] at lexed
    change (Token.readStrict [] (e.script style {})).map List.reverse = _
    rw [lexed]
    exact congrArg Except.ok (List.reverse_reverse _)
  rw [parse, read]
  dsimp only
  have phrase := operators.isPhrase line []
  rw [append_nil] at phrase
  exact phrase.ofTokens

def bareStyle : ScriptStyle := ⟨fun v => "var " ++ v.name, id⟩

/-- `a = b = (c - (d - 1)) * -(e == !(f && true))` -/
def groupedTree : Expr :=
  let name (s : Text) : Expr := .ident 3 s
  let product := binary 3 .mul
    (.binary 3 .sub (name "c") (.binary 3 .sub (name "d") (.literal 3 .number "1")))
    (.unary 3 .neg (.binary 3 .eq (name "e")
      (.unary 3 .not (.binary 3 .and (name "f") (.literal 3 .bool "true")))))
  .binary 3 .assign (name "a") (.binary 3 .assign (name "b") product)

theorem parse_groupedTree :
    groupedTree.script bareStyle {} = ("a = b = (c - (d - 1)) * -(e === !(f && true))" : Text) ∧
      parse 7 "a = b = (c - (d - 1)) * -(e == !(f && true))" = .ok (groupedTree.atLine 7) := by
  have name : ∀ s ∈ (["a", "b", "c", "d", "e", "f"] : List Text), OfOperators (.ident 3 s) := by
    intro s member
    have word : Token.isName s ∧ s ∉ (["true", "false", "null", "new"] : List Text) := by
      revert s
      decide
    exact .ident word.1 word.2
  have operators : groupedTree.OfOperators := by
    refine .binary (name _ (by decide)) (.binary (name _ (by decide)) (.binary (.binary (name _ (by decide))
      (.binary (name _ (by decide)) (.number (by decide)))) (.unary (.binary (name _ (by decide))
        (.unary (.binary (name _ (by decide)) (.bool (.inl rfl))))))))
  exact ⟨rfl, operators.parse_script bareStyle 7⟩

/-- A member access or a call, without its base. -/
inductive Postfix where
  | member (line : Nat) (name : Text)
  | call (line : Nat) (args : List Expr)

namespace Postfix

def apply : Postfix → Expr → Expr
  | member line name, x => .member line x name
  | call line args, x => .call line x args

/-- The postfix at the last operand of an operator, where there is one. -/
def onLast (p : Postfix) : Expr → Expr
  | .binary line op x y => .binary line op x (p.onLast y)
  | .unary line op x => .unary line op (p.onLast x)
  | x => p.apply x

end Postfix

/-- The last operand of an operator is without parentheses, and so are those within it. -/
def endsBare : Expr → Bool
  | .binary _ op _ y => !y.needsParens op.precedence (!op.groupsRight) && y.endsBare
  | .unary _ _ x => !x.isBinary && x.endsBare
  | _ => true

def isOperator : Expr → Bool
  | .binary _ _ _ _ | .unary _ _ _ => true
  | _ => false

theorem needsParens_onLast (p : Postfix) (parent : Nat) (onTie : Bool) (e : Expr) :
    (p.onLast e).needsParens parent onTie = e.needsParens parent onTie ∧ (p.onLast e).isBinary = e.isBinary := by
  cases e with
  | binary | unary => exact ⟨rfl, rfl⟩
  | _ => cases p <;> exact ⟨rfl, rfl⟩

variable {style : ScriptStyle} {scope : Scope} {b : Expr}

theorem script_onLast (p : Postfix) (bare : b.endsBare) :
    (p.onLast b).script style scope = (p.apply b).script style scope := by
  have parts : ∃ s, ∀ x : Expr, (p.apply x).script style scope = x.script style scope ++ s := by
    cases p with
    | member line name => exact ⟨"." ++ name, fun x => append_assoc _ _ _⟩
    | call line args => exact ⟨"(" ++ (scriptArgs style scope args ++ ")"), fun x => by simp [Postfix.apply, script]⟩
  obtain ⟨s, text⟩ := parts
  rw [text]
  induction b using nodeInduction with
  | binary line op x y _ right =>
    simp only [endsBare, Bool.and_eq_true, Bool.not_eq_true'] at bare
    simp only [Postfix.onLast, script, needsParens_onLast, bare.1, right bare.2, inParens, append_assoc]
    rfl
  | unary line op x operand =>
    simp only [endsBare, Bool.and_eq_true, Bool.not_eq_true'] at bare
    simp only [Postfix.onLast, script, (needsParens_onLast p 0 false x).2, bare.1, operand bare.2, inParens, append_assoc]
    rfl
  | _ => exact text _

/-- A member access or a call of an operator has the text of the operator with the access or the call at its last
operand, which is another tree. -/
theorem script_apply_eq_onLast (p : Postfix) (bare : b.endsBare) (style : ScriptStyle) (scope : Scope) :
    (p.apply b).script style scope = (p.onLast b).script style scope ∧ (p.onLast b = p.apply b ↔ b.isOperator = false) := by
  refine ⟨(script_onLast p bare).symm, ?_⟩
  cases b with
  | binary | unary => cases p <;> simp [Postfix.onLast, Postfix.apply, isOperator]
  | _ => exact iff_of_true rfl rfl

/-- `(-f)(x)` is written as `-f(x)`, the negation of a call. -/
theorem script_negatedCall : let f := ident 1 "f"
    parse 1 "(-f)(x)" = .ok (.call 1 (.unary 1 .neg f) [.ident 1 "x"]) ∧
      script bareStyle {} (.call 1 (.unary 1 .neg f) [.ident 1 "x"]) =
        script bareStyle {} (.unary 1 .neg (.call 1 f [.ident 1 "x"])) :=
  ⟨by with_unfolding_all rfl, (script_apply_eq_onLast (.call 1 [.ident 1 "x"]) rfl bareStyle {}).1⟩

/-- `(a + b).c` is written as `a + b.c`, and `(1).c` as `1.c`, where the number takes the point. -/
theorem parse_script_sumMember : let a := ident 1 "a"; let b := ident 1 "b"; let one := literal 1 .number "1"
    (parse 1 "(a + b).c" = .ok (.member 1 (.binary 1 .add a b) "c") ∧
      script bareStyle {} (.member 1 (.binary 1 .add a b) "c") = ("a + b.c" : Text) ∧
      parse 1 "a + b.c" = .ok (.binary 1 .add a (.member 1 b "c"))) ∧
    parse 1 "(1).c" = .ok (.member 1 one "c") ∧ script bareStyle {} (.member 1 one "c") = ("1.c" : Text) ∧
      parse 1 "1.c" = .error (.trailing (some (.name "c"))) :=
  ⟨⟨by with_unfolding_all rfl, rfl, by with_unfolding_all rfl⟩, by with_unfolding_all rfl, rfl,
    by with_unfolding_all rfl⟩

end Expr

end ScriptBuild
