import ScriptBuild.Source.Expression

/-! What parsing an expression can give, as a tree or as an error. -/

namespace ScriptBuild

open Expr

variable {rest ts : List Token} {s : Symbol}

namespace Grammar

abbrev Reading (α : Type) := Except ExprError (α × List Token)

variable {α : Type} {x : α} {n : Nat}

def Before.reading (r : Except ExprError (Before α n)) : Reading α := r.map fun r => (r.value, r.rest)

open Before

def Within.reading (r : Except ExprError (Within α n)) : Reading α := r.map fun r => (r.value, r.rest)

@[simp] theorem Before.reading_ok (r : Before α n) : reading (.ok r) = .ok (r.value, r.rest) := rfl

@[simp] theorem Within.reading_ok (r : Within α n) : Within.reading (.ok r) = .ok (r.value, r.rest) := rfl

theorem Before.fewer_of_reading {r : Except ExprError (Before α n)} {x : α} {rest : List Token}
    (read : reading r = .ok (x, rest)) : rest.length < n := by
  cases r with
  | error e => cases read
  | ok r =>
    cases read
    exact r.fewer

theorem Within.noMore_of_reading {r : Except ExprError (Within α n)} {x : α} {rest : List Token}
    (read : Within.reading r = .ok (x, rest)) : rest.length ≤ n := by
  cases r with
  | error e => cases read
  | ok r =>
    cases read
    exact r.noMore

theorem exists_of_bind_eq_ok {ε α β : Type} {r : Except ε α} {next : α → Except ε β} {y : β}
    (read : r.bind next = .ok y) : ∃ x, r = .ok x ∧ next x = .ok y := by
  cases r with
  | error e => cases read
  | ok x => exact ⟨x, rfl, read⟩

def readBinary (line least : Nat) (ts : List Token) : Reading Expr := reading (binary line least ts)

def readBinaryFrom (line least : Nat) (x : Expr) (ts : List Token) : Reading Expr :=
  Within.reading (binaryFrom line least x ts)

def readUnary (line : Nat) (ts : List Token) : Reading Expr := reading (unary line ts)

def readSuffixes (line : Nat) (x : Expr) (ts : List Token) : Reading Expr :=
  Within.reading (suffixes line x ts)

def readArguments (line : Nat) (ts : List Token) : Reading (List Expr) :=
  reading (arguments line ts)

def readArgumentsFrom (line : Nat) (ts : List Token) : Reading (List Expr) :=
  reading (argumentsFrom line ts)

def readPrimary (line : Nat) (ts : List Token) : Reading Expr := reading (primary line ts)

def readCreation (line : Nat) (ts : List Token) : Reading Expr := reading (creation line ts)

def readTypeName (type : Text) (ts : List Token) : Reading Text := Within.reading (typeName type ts)

section

variable (line least : Nat)

theorem readBinary_eq (ts : List Token) : readBinary line least ts =
      (readUnary line ts).bind fun (x, rest) => readBinaryFrom line least x rest := by
  unfold readBinary readUnary readBinaryFrom binary
  cases unary line ts with
  | error e => rfl
  | ok first =>
    dsimp only [reading_ok, Except.bind]
    cases binaryFrom line least first.value first.rest <;> rfl

theorem readBinaryFrom_nil (x : Expr) : readBinaryFrom line least x [] = .ok (x, []) := by
  unfold readBinaryFrom binaryFrom
  rfl

theorem readBinaryFrom_cons (x : Expr) (t : Token) (ts : List Token) :
    readBinaryFrom line least x (t :: ts) =
      match binaryOp? (some t) with
      | none => .ok (x, t :: ts)
      | some op =>
        if op.precedence < least then .ok (x, t :: ts)
        else
          (readBinary line (if op.groupsRight then op.precedence else op.precedence + 1) ts).bind
            fun (y, rest) => readBinaryFrom line least (.binary line op x y) rest := by
  unfold readBinaryFrom readBinary
  rw [binaryFrom]
  cases binaryOp? (some t) with
  | none => rfl
  | some op =>
    dsimp only
    split
    · rfl
    · cases binary line (if op.groupsRight then op.precedence else op.precedence + 1) ts with
      | error e => rfl
      | ok right =>
        dsimp only [reading_ok, Except.bind]
        cases binaryFrom line least (.binary line op x right.value) right.rest <;> rfl

theorem readUnary_nil : readUnary line [] = .error (.unexpected none) := by
  unfold readUnary unary
  rfl

theorem readUnary_cons (t : Token) (ts : List Token) : readUnary line (t :: ts) =
      match unaryOp? (some t) with
      | some op => (readUnary line ts).map fun (x, rest) => (.unary line op x, rest)
      | none => (readPrimary line (t :: ts)).bind fun (x, rest) => readSuffixes line x rest := by
  unfold readUnary readPrimary readSuffixes
  rw [unary]
  cases unaryOp? (some t) with
  | some op =>
    cases unary line ts <;> rfl
  | none =>
    cases primary line (t :: ts) with
    | error e => rfl
    | ok first =>
      dsimp only [reading_ok, Except.bind]
      cases suffixes line first.value first.rest <;> rfl

theorem readSuffixes_member (x : Expr) (name : Text) (ts : List Token) :
    readSuffixes line x (.symbol .dot :: .name name :: ts) = readSuffixes line (.member line x name) ts := by
  unfold readSuffixes
  rw [suffixes]
  cases suffixes line (.member line x name) ts <;> rfl

theorem readSuffixes_dot (x : Expr) (ts : List Token) (unnamed : ∀ name rest, ts ≠ .name name :: rest) :
    readSuffixes line x (.symbol .dot :: ts) = .error (.expectedMember ts.head?) := by
  unfold readSuffixes
  rw [suffixes]
  · rfl
  · exact unnamed

theorem readSuffixes_call (x : Expr) (ts : List Token) : readSuffixes line x (.symbol .open :: ts) =
      (readArguments line ts).bind fun (args, rest) => readSuffixes line (.call line x args) rest := by
  unfold readSuffixes readArguments
  rw [suffixes]
  cases arguments line ts with
  | error e => rfl
  | ok read =>
    dsimp only [reading_ok, Except.bind]
    cases suffixes line (.call line x read.value) read.rest <;> rfl

end

/-- Tokens that do not begin with a member access or a call. -/
def NoSuffix (ts : List Token) : Prop := ts.head? ≠ some (.symbol .dot) ∧ ts.head? ≠ some (.symbol .open)

variable (line : Nat)

theorem readSuffixes_stop (x : Expr) (done : NoSuffix ts) : readSuffixes line x ts = .ok (x, ts) := by
  unfold readSuffixes
  rw [suffixes]
  · rfl
  · intro name rest same
    exact done.1 (by rw [same]; rfl)
  · intro rest same
    exact done.1 (by rw [same]; rfl)
  · intro rest same
    exact done.2 (by rw [same]; rfl)

/-- A suffix is a member access, a dot without a name, or a call. -/
theorem noSuffix_or_suffix (ts : List Token) : NoSuffix ts ∨ (∃ name rest, ts = .symbol .dot :: .name name :: rest) ∨
      (∃ rest, ts = .symbol .dot :: rest ∧ ∀ name left, rest ≠ .name name :: left) ∨
      ∃ rest, ts = .symbol .open :: rest := by
  by_cases dot : ts.head? = some (.symbol .dot)
  · obtain ⟨rest, rfl⟩ := List.head?_eq_some_iff.mp dot
    by_cases named : ∃ name left, rest = .name name :: left
    · obtain ⟨name, left, rfl⟩ := named
      exact .inr (.inl ⟨name, left, rfl⟩)
    · exact .inr (.inr (.inl ⟨rest, rfl, fun name left same => named ⟨name, left, same⟩⟩))
  · by_cases opens : ts.head? = some (.symbol .open)
    · exact .inr (.inr (.inr (List.head?_eq_some_iff.mp opens)))
    · exact .inl ⟨dot, opens⟩

theorem readArguments_close (ts : List Token) : readArguments line (.symbol .close :: ts) = .ok ([], ts) := by
  unfold readArguments
  rw [arguments]
  rfl

theorem readArguments_eq (more : ts.head? ≠ some (.symbol .close)) :
    readArguments line ts = readArgumentsFrom line ts := by
  unfold readArguments readArgumentsFrom
  rw [arguments]
  intro rest same
  exact more (by rw [same]; rfl)

theorem readArgumentsFrom_eq (ts : List Token) : readArgumentsFrom line ts =
      (readBinary line 1 ts).bind fun (x, rest) =>
        match rest with
        | .symbol .close :: rest => .ok ([x], rest)
        | .symbol .comma :: rest =>
          (readArgumentsFrom line rest).map fun (xs, rest) => (x :: xs, rest)
        | rest => .error (.expectedSeparator rest.head?) := by
  unfold readArgumentsFrom readBinary
  rw [argumentsFrom]
  cases binary line 1 ts with
  | error e => rfl
  | ok first =>
    obtain ⟨x, rest, fewer⟩ := first
    dsimp only [reading_ok, Except.bind]
    split
    · rfl
    · rename_i left h
      dsimp only
      cases argumentsFrom line left <;> rfl
    · rename_i notClose notComma
      split
      · exact absurd HEq.rfl (notClose _ _ rfl)
      · exact absurd HEq.rfl (notComma _ _ rfl)
      · rfl

theorem readPrimary_number (text : Text) (ts : List Token) :
    readPrimary line (.number text :: ts) = .ok (.literal line .number text, ts) := by
  unfold readPrimary
  rw [primary]
  rfl

theorem readPrimary_string (value : Text) (ts : List Token) :
    readPrimary line (.string value :: ts) = .ok (.literal line .string value, ts) := by
  unfold readPrimary
  rw [primary]
  rfl

theorem readPrimary_name {name : Text} (ts : List Token) (plain : name ≠ "new") :
    readPrimary line (.name name :: ts) = .ok (ofName line name, ts) := by
  unfold readPrimary
  rw [primary, if_neg (by simpa using plain)]
  rfl

theorem readPrimary_new (ts : List Token) : readPrimary line (.name "new" :: ts) = readCreation line ts := by
  unfold readPrimary readCreation
  rw [primary]
  cases creation line ts <;> rfl

theorem readPrimary_open (ts : List Token) : readPrimary line (.symbol .open :: ts) =
      (readBinary line 1 ts).bind fun (x, rest) =>
        match rest with
        | .symbol .close :: rest => .ok (x, rest)
        | rest => .error (.expectedSymbol .close rest.head?) := by
  unfold readPrimary readBinary
  rw [primary]
  cases binary line 1 ts with
  | error e => rfl
  | ok inner =>
    obtain ⟨x, rest, fewer⟩ := inner
    dsimp only [reading_ok, Except.bind]
    split
    · rfl
    · rename_i notClose
      split
      · exact absurd HEq.rfl (notClose _ _ rfl)
      · rfl

theorem readPrimary_symbol (ts : List Token) (other : s ≠ .open) :
    readPrimary line (.symbol s :: ts) = .error (.unexpected (some (.symbol s))) := by
  unfold readPrimary
  rw [primary]
  · rfl
  · exact other

theorem readPrimary_nil : readPrimary line [] = .error (.unexpected none) := by
  unfold readPrimary
  rw [primary]
  rfl

theorem readCreation_error (unnamed : ∀ part rest, ts ≠ .name part :: rest) :
    readCreation line ts = .error (.expectedTypeAfterNew ts.head?) := by
  unfold readCreation
  rw [creation]
  · rfl
  · exact unnamed

theorem readCreation_name (part : Text) (ts : List Token) : readCreation line (.name part :: ts) =
      (readTypeName part ts).bind fun (type, rest) =>
        match rest with
        | .symbol .open :: rest =>
          (readArguments line rest).map fun (args, rest) => (.create line type args, rest)
        | rest => .ok (.create line type [], rest) := by
  unfold readCreation readTypeName
  rw [creation]
  cases typeName part ts with
  | error e => rfl
  | ok read =>
    obtain ⟨type, rest, noMore⟩ := read
    dsimp only [Within.reading_ok, Except.bind]
    split
    · rename_i left h
      dsimp only [readArguments]
      cases arguments line left <;> rfl
    · rename_i notOpen
      split
      · exact absurd HEq.rfl (notOpen _ _ rfl)
      · rfl

theorem readTypeName_part (type part : Text) (ts : List Token) (joins : s = .dot ∨ s = .colon) :
    readTypeName type (.symbol s :: .name part :: ts) = readTypeName (type ++ s.text ++ part) ts := by
  unfold readTypeName
  rw [typeName, if_pos (by rcases joins with rfl | rfl <;> rfl)]
  cases typeName (type ++ s.text ++ part) ts <;> rfl

theorem readTypeName_stop (type : Text) (notDot : ts.head? ≠ some (.symbol .dot))
    (notColon : ts.head? ≠ some (.symbol .colon)) : readTypeName type ts = .ok (type, ts) := by
  have apart : ∀ s rest, ts = .symbol s :: rest → ¬ (s == Symbol.dot || s == Symbol.colon) = true := by
    rintro s rest rfl
    simp only [List.head?_cons, ne_eq, Option.some.injEq, Token.symbol.injEq] at notDot notColon
    simp [notDot, notColon]
  unfold readTypeName
  rw [typeName.eq_def]
  split
  · rw [if_neg (apart _ _ rfl)]
    rfl
  · rw [if_neg (apart _ _ rfl)]
    rfl
  · rfl

end Grammar

open List

/-- Induction over a tree, with a hypothesis for every argument of a call or a creation. -/
theorem Expr.nodeInduction {P : Expr → Prop} (ident : ∀ line name, P (.ident line name))
    (literal : ∀ line kind value, P (.literal line kind value))
    (binary : ∀ line op x y, P x → P y → P (.binary line op x y))
    (unary : ∀ line op x, P x → P (.unary line op x))
    (call : ∀ line f args, P f → (∀ a ∈ args, P a) → P (.call line f args))
    (member : ∀ line x name, P x → P (.member line x name))
    (create : ∀ line type args, (∀ a ∈ args, P a) → P (.create line type args)) (e : Expr) : P e :=
  @rec P (fun args => ∀ a ∈ args, P a) ident literal binary unary call member create
    (fun _ absent => absurd absent not_mem_nil)
    (fun _ _ first others a inside => (mem_cons.mp inside).elim (fun same => same ▸ first) (others a)) e

/-- An error that calls no other token than a symbol unexpected. -/
def ExprError.SparesWords : ExprError → Prop
  | .unexpected (some t) => ∃ s, t = .symbol s
  | _ => True

def Token.ofUnary : UnaryOp → Token
  | .neg => .symbol (.binary .sub)
  | .not => .symbol .bang

namespace Grammar

/-- The level that the left operand of an operator must have at least. -/
def leftLeast (op : BinaryOp) : Nat := if op.groupsRight then op.precedence + 1 else op.precedence

def rightLeast (op : BinaryOp) : Nat := if op.groupsRight then op.precedence else op.precedence + 1

/-- The rest of a type name, which is `whole` if it begins with `type`. It is as long as possible. -/
inductive TypeName : Text → List Token → List Token → Text → Prop where
  | done {type : Text} {rest : List Token} : rest.head? ≠ some (.symbol .dot) → rest.head? ≠ some (.symbol .colon) →
      TypeName type rest rest type
  | more {type part whole : Text} {s : Symbol} {ts rest : List Token} : s = .dot ∨ s = .colon →
      TypeName (type ++ s.text ++ part) ts rest whole → TypeName type (.symbol s :: .name part :: ts) rest whole

mutual

/-- Tokens, those that follow a phrase at their beginning, and the tree that the phrase spells. The level of a binary
operator is its precedence, that of a unary operator is 8, and 9 is the level of what a member access or a call can
follow, parentheses among them. An operand has at least the level that its operator asks for. -/
inductive Phrase (line : Nat) : Nat → List Token → List Token → Expr → Prop where
  | number (text : Text) (rest : List Token) : Phrase line 9 (.number text :: rest) rest (.literal line .number text)
  | string (value : Text) (rest : List Token) : Phrase line 9 (.string value :: rest) rest (.literal line .string value)
  | name {name : Text} (rest : List Token) : name ≠ "new" → Phrase line 9 (.name name :: rest) rest (ofName line name)
  | group {n : Nat} {ts rest : List Token} {x : Expr} : Phrase line n ts (.symbol .close :: rest) x →
      Phrase line 9 (.symbol .open :: ts) rest x
  | member {ts rest : List Token} {x : Expr} {name : Text} : Phrase line 9 ts (.symbol .dot :: .name name :: rest) x →
      Phrase line 9 ts rest (.member line x name)
  | call {ts us rest : List Token} {x : Expr} {xs : List Expr} : Phrase line 9 ts (.symbol .open :: us) x →
      Arguments line us rest xs → Phrase line 9 ts rest (.call line x xs)
  | create {part type : Text} {ts us rest : List Token} {xs : List Expr} : TypeName part ts (.symbol .open :: us) type →
      Arguments line us rest xs → Phrase line 9 (.name "new" :: .name part :: ts) rest (.create line type xs)
  | bare {part type : Text} {ts rest : List Token} : TypeName part ts rest type →
      Phrase line 8 (.name "new" :: .name part :: ts) rest (.create line type [])
  | unary {n : Nat} {ts rest : List Token} {x : Expr} (op : UnaryOp) : Phrase line n ts rest x → 8 ≤ n →
      Phrase line 8 (Token.ofUnary op :: ts) rest (.unary line op x)
  | binary {m n : Nat} {ts us rest : List Token} {x y : Expr} {op : BinaryOp} :
      Phrase line m ts (.symbol (.binary op) :: us) x → leftLeast op ≤ m → Phrase line n us rest y → rightLeast op ≤ n →
      Phrase line op.precedence ts rest (.binary line op x y)

/-- What stands between the parentheses of a call, and the closing one. -/
inductive Arguments (line : Nat) : List Token → List Token → List Expr → Prop where
  | none (rest : List Token) : Arguments line (.symbol .close :: rest) rest []
  | last {n : Nat} {ts rest : List Token} {x : Expr} : Phrase line n ts (.symbol .close :: rest) x →
      Arguments line ts rest [x]
  | more {n : Nat} {ts us rest : List Token} {x : Expr} {xs : List Expr} : Phrase line n ts (.symbol .comma :: us) x →
      Arguments line us rest xs → xs ≠ [] → Arguments line ts rest (x :: xs)

end

variable {α β : Type} {P : α → List Token → Prop} {Q : β → List Token → Prop}

/-- What is read satisfies `P` together with the tokens that are left; an error spares words. -/
def Yields (P : α → List Token → Prop) : Reading α → Prop
  | .ok (x, rest) => P x rest
  | .error e => e.SparesWords

theorem Yields.bind {r : Reading α} {next : α × List Token → Reading β} (first : Yields P r)
    (second : ∀ x rest, r = .ok (x, rest) → P x rest → Yields Q (next (x, rest))) :
    Yields Q (Except.bind r next) := by
  cases r with
  | error e => exact first
  | ok read => exact second read.1 read.2 rfl first

theorem Yields.map {r : Reading α} {f : α × List Token → β × List Token} (first : Yields P r)
    (second : ∀ x rest, P x rest → Q (f (x, rest)).1 (f (x, rest)).2) : Yields Q (Except.map f r) := by
  cases r with
  | error e => exact first
  | ok read => exact second read.1 read.2 first

/-- The next operator is looser than `least`. -/
def Ends (least : Nat) (ts : List Token) : Prop := ∀ op, binaryOp? ts.head? = some op → op.precedence < least

theorem rightLeast_le (op : BinaryOp) : rightLeast op ≤ 8 := by
  cases op <;> decide

theorem leftLeast_le (op : BinaryOp) : leftLeast op ≤ 8 := by
  cases op <;> decide

/-- An operator that ends the right operand of another takes the whole as its left operand. -/
theorem leftLeast_le_of_lt {op next : BinaryOp} (looser : next.precedence < rightLeast op) :
    leftLeast next ≤ op.precedence := by
  revert looser
  cases op <;> cases next <;> decide

theorem eq_ofUnary {t : Token} {op : UnaryOp} (found : unaryOp? (some t) = some op) : t = Token.ofUnary op := by
  unfold unaryOp? at found
  split at found
  · rename_i same
    cases found
    exact Option.some.inj same
  · rename_i same
    cases found
    exact Option.some.inj same
  · cases found

theorem eq_binary {t : Token} {op : BinaryOp} (found : binaryOp? (some t) = some op) : t = .symbol (.binary op) := by
  unfold binaryOp? at found
  split at found
  · rename_i same
    cases found
    exact Option.some.inj same
  · cases found

theorem yields_typeName (type : Text) (ts : List Token) :
    Yields (fun whole rest => TypeName type ts rest whole) (readTypeName type ts) := by
  have stops : ∀ {type : Text} {s : Symbol} {rest : List Token}, ¬ (s == .dot || s == .colon) →
      TypeName type (.symbol s :: rest) (.symbol s :: rest) type := by
    intro type s rest other
    simp only [Bool.or_eq_true, beq_iff_eq, not_or] at other
    exact .done (by simpa using other.1) (by simpa using other.2)
  unfold readTypeName
  fun_induction typeName type ts with
  | case1 type s part rest joins type' left noMore eq ih =>
    rw [eq] at ih
    exact .more (by simpa using joins) ih
  | case2 type s part rest joins e eq ih => rwa [eq] at ih
  | case3 type s part rest other => exact stops other
  | case4 => trivial
  | case5 type s rest _ other => exact stops other
  | case6 type ts _ other =>
    refine .done (fun dot => ?_) fun colon => ?_
    · obtain ⟨rest, rfl⟩ := head?_eq_some_iff.mp dot
      exact other _ _ rfl
    · obtain ⟨rest, rfl⟩ := head?_eq_some_iff.mp colon
      exact other _ _ rfl

theorem TypeName.head?_ne {type whole : Text} (named : TypeName type ts rest whole) :
    rest.head? ≠ some (.symbol .dot) ∧ rest.head? ≠ some (.symbol .colon) := by
  induction named with
  | done notDot notColon => exact ⟨notDot, notColon⟩
  | more _ _ ih => exact ih

-- The induction is the recursion of the parsers, so the theorems are as mutual as they are.
mutual

theorem yields_binary (line : Nat) {least : Nat} (small : least ≤ 8) (ts : List Token) :
    Yields (fun x rest => (∃ n, Phrase line n ts rest x ∧ least ≤ n) ∧ Ends least rest) (readBinary line least ts) := by
  rw [readBinary_eq]
  refine (yields_unary line ts).bind ?_
  rintro x rest read ⟨n, phrase, operand⟩
  have fewer : rest.length < ts.length := Before.fewer_of_reading read
  exact yields_binaryFrom rest phrase (Nat.le_trans small operand) fun op _ _ => Nat.le_trans (leftLeast_le op) operand
termination_by 8 * ts.length + 5

theorem yields_binaryFrom {line least n : Nat} {us : List Token} {x : Expr} (ts : List Token)
    (phrase : Phrase line n us ts x) (small : least ≤ n)
    (left : ∀ op, binaryOp? ts.head? = some op → least ≤ op.precedence → leftLeast op ≤ n) :
    Yields (fun y rest => (∃ n, Phrase line n us rest y ∧ least ≤ n) ∧ Ends least rest)
      (readBinaryFrom line least x ts) := by
  cases same : ts with
  | nil =>
    rw [readBinaryFrom_nil]
    exact ⟨⟨n, same ▸ phrase, small⟩, nofun⟩
  | cons t later =>
    have length : ts.length = later.length + 1 := by rw [same]; rfl
    rw [same] at phrase left
    rw [readBinaryFrom_cons]
    split
    · rename_i none
      exact ⟨⟨n, phrase, small⟩, fun op found => by cases none.symm.trans found⟩
    · rename_i op found
      split
      · rename_i looser
        exact ⟨⟨n, phrase, small⟩, fun _ same => Option.some.inj (found.symm.trans same) ▸ looser⟩
      · rename_i tight
        have binds := Nat.not_lt.mp tight
        refine (yields_binary line (rightLeast_le op) later).bind ?_
        rintro y rest read ⟨⟨m, right, fits⟩, ends⟩
        have fewer : rest.length < later.length := Before.fewer_of_reading read
        exact yields_binaryFrom rest (.binary (eq_binary found ▸ phrase) (left op found binds) right fits) binds
          fun next after _ => leftLeast_le_of_lt (ends next after)
termination_by 8 * ts.length

theorem yields_unary (line : Nat) (ts : List Token) :
    Yields (fun x rest => ∃ n, Phrase line n ts rest x ∧ 8 ≤ n) (readUnary line ts) := by
  cases ts with
  | nil =>
    rw [readUnary_nil]
    trivial
  | cons t ts =>
    rw [readUnary_cons]
    split
    · rename_i op found
      refine (yields_unary line ts).map ?_
      rintro x rest ⟨n, phrase, operand⟩
      exact ⟨8, eq_ofUnary found ▸ .unary op phrase operand, Nat.le_refl 8⟩
    · refine (yields_primary line (t :: ts)).bind ?_
      rintro x rest read ⟨n, phrase, base⟩
      have fewer := Before.fewer_of_reading read
      exact yields_suffixes rest phrase base
termination_by 8 * ts.length + 3
decreasing_by all_goals (simp only [length_cons] at *; omega)

theorem yields_suffixes {line n : Nat} {us : List Token} {x : Expr} (ts : List Token) (phrase : Phrase line n us ts x)
    (base : n = 9 ∨ n = 8 ∧ NoSuffix ts) :
    Yields (fun y rest => ∃ n, Phrase line n us rest y ∧ 8 ≤ n) (readSuffixes line x ts) := by
  rcases noSuffix_or_suffix ts with done | ⟨name, rest, same⟩ | ⟨rest, same, unnamed⟩ | ⟨rest, same⟩
  · rw [readSuffixes_stop line x done]
    exact ⟨n, phrase, by omega⟩
  · have length : ts.length = rest.length + 2 := by rw [same]; rfl
    obtain rfl : n = 9 := base.resolve_right fun done => done.2.1 (by rw [same]; rfl)
    rw [same, readSuffixes_member]
    exact yields_suffixes rest (same ▸ phrase).member (.inl rfl)
  · rw [same, readSuffixes_dot line x rest unnamed]
    trivial
  · have length : ts.length = rest.length + 1 := by rw [same]; rfl
    obtain rfl : n = 9 := base.resolve_right fun done => done.2.2 (by rw [same]; rfl)
    rw [same, readSuffixes_call]
    refine (yields_arguments line rest).bind fun args left read found => ?_
    have fewer := Before.fewer_of_reading read
    exact yields_suffixes left ((same ▸ phrase).call found) (.inl rfl)
termination_by 8 * ts.length

theorem yields_arguments (line : Nat) (ts : List Token) :
    Yields (fun args rest => Arguments line ts rest args) (readArguments line ts) := by
  by_cases closed : ts.head? = some (.symbol .close)
  · obtain ⟨rest, rfl⟩ := head?_eq_some_iff.mp closed
    rw [readArguments_close]
    exact .none rest
  · rw [readArguments_eq line closed]
    have found := yields_argumentsFrom line ts
    cases read : readArgumentsFrom line ts with
    | error e => rwa [read] at found
    | ok args =>
      rw [read] at found
      exact found.1
termination_by 8 * ts.length + 7

theorem yields_argumentsFrom (line : Nat) (ts : List Token) :
    Yields (fun args rest => Arguments line ts rest args ∧ args ≠ []) (readArgumentsFrom line ts) := by
  rw [readArgumentsFrom_eq]
  refine (yields_binary line (by decide) ts).bind ?_
  rintro x rest read ⟨⟨n, phrase, _⟩, _⟩
  have fewer : rest.length < ts.length := Before.fewer_of_reading read
  dsimp only
  split
  · exact ⟨.last phrase, cons_ne_nil _ _⟩
  · rename_i left _
    exact (yields_argumentsFrom line left).map fun xs _ ⟨found, more⟩ => ⟨.more phrase found more, cons_ne_nil _ _⟩
  · trivial
termination_by 8 * ts.length + 6
decreasing_by all_goals (simp only [length_cons] at *; omega)

theorem yields_primary (line : Nat) (ts : List Token) :
    Yields (fun x rest => ∃ n, Phrase line n ts rest x ∧ (n = 9 ∨ n = 8 ∧ NoSuffix rest)) (readPrimary line ts) := by
  match ts with
  | [] =>
    rw [readPrimary_nil]
    trivial
  | .number text :: ts =>
    rw [readPrimary_number]
    exact ⟨9, .number text ts, .inl rfl⟩
  | .string value :: ts =>
    rw [readPrimary_string]
    exact ⟨9, .string value ts, .inl rfl⟩
  | .name name :: ts =>
    by_cases creates : name = "new"
    · rw [creates, readPrimary_new]
      exact yields_creation line ts
    · rw [readPrimary_name line ts creates]
      exact ⟨9, .name ts creates, .inl rfl⟩
  | .symbol s :: ts =>
    by_cases opens : s = .open
    · rw [opens, readPrimary_open]
      refine (yields_binary line (by decide) ts).bind ?_
      rintro x rest _ ⟨⟨n, phrase, _⟩, _⟩
      dsimp only
      split
      · exact ⟨9, phrase.group, .inl rfl⟩
      · trivial
    · rw [readPrimary_symbol line ts opens]
      exact ⟨s, rfl⟩
termination_by 8 * ts.length + 2
decreasing_by all_goals (simp only [length_cons] at *; omega)

theorem yields_creation (line : Nat) (ts : List Token) :
    Yields (fun x rest => ∃ n, Phrase line n (.name "new" :: ts) rest x ∧ (n = 9 ∨ n = 8 ∧ NoSuffix rest))
      (readCreation line ts) := by
  by_cases named : ∃ part rest, ts = .name part :: rest
  · obtain ⟨part, rest, same⟩ := named
    have length : ts.length = rest.length + 1 := by rw [same]; rfl
    rw [same, readCreation_name]
    refine (yields_typeName part rest).bind ?_
    intro type left read whole
    have noMore := Within.noMore_of_reading read
    dsimp only
    split
    · rename_i left
      exact (yields_arguments line left).map fun args _ found => ⟨9, .create whole found, .inl rfl⟩
    · rename_i notOpen
      refine ⟨8, .bare whole, .inr ⟨rfl, whole.head?_ne.1, fun opens => ?_⟩⟩
      obtain ⟨rest, rfl⟩ := head?_eq_some_iff.mp opens
      exact notOpen rest rfl
  · rw [readCreation_error line fun part rest same => named ⟨part, rest, same⟩]
    trivial
termination_by 8 * ts.length + 1
decreasing_by all_goals (simp only [length_cons] at *; omega)

end

end Grammar

namespace Expr

variable {line : Nat} {e : Expr}

/-- A complete expression uses all tokens, and what it is made of was read from them. -/
theorem ofTokens_eq (line : Nat) (ts : List Token) : ofTokens line ts =
      (Grammar.readBinary line 1 ts).bind fun (x, rest) =>
        if rest.isEmpty then .ok x else .error (.trailing rest.head?) := by
  unfold ofTokens Grammar.readBinary
  cases Grammar.binary line 1 ts <;> rfl

/-- Parsing gives the tree of a phrase that is made of all tokens, or an error that spares words. -/
theorem ofTokens_cases (line : Nat) (ts : List Token) :
    (∃ e n, ofTokens line ts = .ok e ∧ Grammar.Phrase line n ts [] e) ∨
      ∃ cause : ExprError, ofTokens line ts = .error cause ∧ cause.SparesWords := by
  have yields : Grammar.Yields _ (Grammar.readBinary line 1 ts) := Grammar.yields_binary line (by decide) ts
  rw [ofTokens_eq]
  cases result : Grammar.readBinary line 1 ts with
  | error cause => exact .inr ⟨cause, rfl, by rwa [result] at yields⟩
  | ok read =>
    rw [result] at yields
    obtain ⟨⟨n, phrase, _⟩, _⟩ := yields
    dsimp only [Except.bind]
    split
    · rename_i empty
      exact .inl ⟨_, n, rfl, isEmpty_iff.mp empty ▸ phrase⟩
    · exact .inr ⟨_, rfl, trivial⟩

theorem phrase_of_parse {s : Text} (parsed : parse line s = .ok e) :
    ∃ ts n, Token.readAll s = .ok ts ∧ Grammar.Phrase line n ts [] e := by
  unfold parse at parsed
  split at parsed
  · cases parsed
  · rename_i ts read
    rcases ofTokens_cases line ts with ⟨_, n, same, phrase⟩ | ⟨_, failed, _⟩
    · cases parsed.symm.trans same
      exact ⟨ts, n, read, phrase⟩
    · cases parsed.symm.trans failed

theorem sparesWords_of_parse {s : Text} {cause : ExprError} (failed : parse line s = .error cause) :
    cause.SparesWords := by
  unfold parse at failed
  split at failed
  · cases failed
    trivial
  · rename_i ts _
    rcases ofTokens_cases line ts with ⟨_, _, same, _⟩ | ⟨_, same, spares⟩
    · cases failed.symm.trans same
    · cases failed.symm.trans same
      exact spares

end Expr

end ScriptBuild
