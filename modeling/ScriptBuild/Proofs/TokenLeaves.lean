import ScriptBuild.Proofs.ScriptReading
import ScriptBuild.Source.Signature

/-! What the tokenizer has read so far. -/

namespace ScriptBuild

open List Text Grammar

variable {q : Quotation} {b : UInt8} {s : Text}

/-- A property of bytes that holds of all 256. -/
theorem Token.of_all_bytes {P : UInt8 → Bool} (all : ∀ n : Fin 256, P (UInt8.ofFin n)) (b : UInt8) : P b :=
  all b.toFin

/-- The states of a scan for quotes. -/
def Quotation.states : List Quotation := [.outside, .inside '"', .inside '\'', .escaped '"', .escaped '\'']

/-- Only quotes begin and end string literals. -/
theorem Quotation.step_mem_states (known : q ∈ states) (b : UInt8) :
    q.step b ∈ states ∧ (b ≠ '"' ∧ b ≠ '\'' → (q.step b = .outside ↔ q = .outside)) := by
  have bytes := Token.of_all_bytes (P := fun b => ∀ q ∈ states, q.step b ∈ states ∧
    (b ≠ '"' ∧ b ≠ '\'' → (q.step b = .outside ↔ q = .outside))) (by decide +kernel) b
  exact of_decide_eq_true bytes q known

namespace Token

def isName : Text → Bool
  | [] => false
  | b :: s => startsName b && s.all continuesName

def isNumber : Text → Bool
  | [] => false
  | b :: s => Text.isDigit b && s.all continuesNumber

/-- Names and numbers are such. -/
@[simp] def Plain : Token → Prop
  | .name text => isName text
  | .number text => isNumber text
  | _ => True

def ofLiteral (value : Text) : LiteralKind → Token
  | .number => .number value
  | .string => .string value
  | .bool | .null => .name value

@[simp] def Mode.quotation : Mode → Quotation
  | .string quote _ => .inside quote
  | .escape quote _ => .escaped quote
  | _ => .outside

/-- What is read of a name or of a number is one. -/
@[simp] def Mode.Plain : Mode → Prop
  | .name read => isName read.reverse
  | .number read => isNumber read.reverse
  | _ => True

theorem isName_reverse_cons (word : isName s.reverse) (continues : continuesName b) : isName (b :: s).reverse := by
  rw [reverse_cons]
  cases same : s.reverse with
  | nil => simp [same, isName] at word
  | cons c s => simpa [same, isName, continues] using word

theorem isNumber_reverse_cons (word : isNumber s.reverse) (continues : continuesNumber b) :
    isNumber (b :: s).reverse := by
  rw [reverse_cons]
  cases same : s.reverse with
  | nil => simp [same, isNumber] at word
  | cons c s => simpa [same, isNumber, continues] using word

theorem continuesName_of_mem (word : isName s) : ∀ c ∈ s, continuesName c := by
  cases s with
  | nil => cases word
  | cons c s =>
    simp only [isName, Bool.and_eq_true, all_eq_true] at word
    exact forall_mem_cons.mpr ⟨by simp [continuesName, word.1], word.2⟩

/-- The tokenizer is where a scan for quotes is, and its tokens are plain. -/
structure Tracks (q : Quotation) (r : Reader) : Prop where
  quotation : r.mode.quotation = q
  known : q ∈ Quotation.states
  word : r.mode.Plain
  plain : ∀ t ∈ r.tokens, t.Plain

/-- The bytes of tokens other than string literals. -/
def isOrdinary (b : UInt8) : Bool :=
  isBlankByte b || continuesNumber b || continuesName b || startsPair b || (singleSymbol? b).isSome

theorem step_outside (ordinary : isOrdinary b) : Quotation.step .outside b = .outside := by
  have bytes := of_all_bytes (P := fun b => isOrdinary b → Quotation.step .outside b = .outside) (by decide +kernel) b
  exact of_decide_eq_true bytes ordinary

variable {r r' : Reader} {tokens : List Token}

theorem tracks_begin (plain : ∀ t ∈ tokens, t.Plain) (begins : begin tokens b = .ok r) :
    Tracks (Quotation.step .outside b) r := by
  have known := (Quotation.step_mem_states (q := .outside) (by decide) b).1
  have stay : ∀ {mode : Mode} {ts : List Token}, isOrdinary b → mode.quotation = .outside →
      mode.Plain → (∀ t ∈ ts, t.Plain) → Tracks (Quotation.step .outside b) ⟨mode, ts⟩ :=
    fun ordinary outside word plain => ⟨outside.trans (step_outside ordinary).symm, known, word, plain⟩
  unfold begin at begins
  split at begins
  · rename_i blank
    cases begins
    exact stay (by simp [isOrdinary, blank]) rfl trivial plain
  split at begins
  · rename_i quote
    cases begins
    exact ⟨(if_pos quote).symm, known, trivial, plain⟩
  split at begins
  · rename_i digit
    cases begins
    exact stay (by simp [isOrdinary, continuesNumber, digit]) rfl (by simp [isNumber, digit]) plain
  split at begins
  · rename_i starts
    cases begins
    exact stay (by simp [isOrdinary, continuesName, starts]) rfl (by simp [isName, starts]) plain
  split at begins
  · rename_i pair
    cases begins
    exact stay (by simp [isOrdinary, pair]) rfl trivial plain
  split at begins
  · rename_i symbol found
    cases begins
    exact stay (by simp [isOrdinary, found]) rfl trivial (forall_mem_cons.mpr ⟨trivial, plain⟩)
  · cases begins

theorem Tracks.settle (tracks : Tracks q r) (settles : settle r = .ok tokens) : q = .outside ∧ ∀ t ∈ tokens, t.Plain := by
  obtain ⟨rfl, known, word, plain⟩ := tracks
  obtain ⟨mode, ts⟩ := r
  cases mode with
  | between =>
    cases settles
    exact ⟨rfl, plain⟩
  | number read | name read =>
    cases settles
    exact ⟨rfl, forall_mem_cons.mpr ⟨word, plain⟩⟩
  | half first =>
    dsimp only [Token.settle] at settles
    split at settles
    · cases settles
      exact ⟨rfl, forall_mem_cons.mpr ⟨trivial, plain⟩⟩
    · cases settles
  | string | escape => cases settles

theorem startsPair_of_pairSymbol? {first : UInt8} {symbol : Symbol} (found : pairSymbol? first b = some symbol) :
    startsPair b := by
  have bytes := of_all_bytes (P := fun b => Text.char b ∈ ['=', '&', '|'] → startsPair b) (by decide +kernel) b
  simp only [decide_eq_true_eq] at bytes
  unfold pairSymbol? at found
  split at found <;> cases found <;> exact bytes (by simp [*])

theorem Tracks.step (tracks : Tracks q r) (steps : step r b = .ok r') : Tracks (q.step b) r' := by
  have after : ((Token.settle r).bind fun tokens => begin tokens b) = .ok r' → Tracks (q.step b) r' := by
    intro follows
    obtain ⟨tokens, settles, begins⟩ := exists_of_bind_eq_ok follows
    obtain ⟨rfl, plain⟩ := tracks.settle settles
    exact tracks_begin plain begins
  obtain ⟨mode, tokens⟩ := r
  obtain ⟨rfl, known, word, plain⟩ := tracks
  have still := (Quotation.step_mem_states known b).1
  cases mode with
  | between => exact after steps
  | string quote read =>
    have other : quote ≠ '\\' := by
      rintro rfl
      exact absurd (show Quotation.inside '\\' ∈ Quotation.states from known) (by decide)
    dsimp only [Token.step] at steps
    split at steps
    · rename_i closes
      cases steps
      exact ⟨by simp [Quotation.step, eq_of_beq closes, other], still, trivial,
        forall_mem_cons.mpr ⟨trivial, plain⟩⟩
    · rename_i inside
      split at steps <;> rename_i escapes <;> cases steps <;>
        exact ⟨by simp [Quotation.step, inside, escapes], still, trivial, plain⟩
  | escape quote read =>
    cases steps
    exact ⟨rfl, still, trivial, plain⟩
  | number read =>
    dsimp only [Token.step] at steps
    split at steps
    · rename_i continues
      cases steps
      exact ⟨(step_outside (by simp [isOrdinary, continues])).symm, still, isNumber_reverse_cons word continues, plain⟩
    · exact after steps
  | name read =>
    dsimp only [Token.step] at steps
    split at steps
    · rename_i continues
      cases steps
      exact ⟨(step_outside (by simp [isOrdinary, continues])).symm, still, isName_reverse_cons word continues, plain⟩
    · exact after steps
  | half first =>
    dsimp only [Token.step] at steps
    split at steps
    · rename_i symbol found
      cases steps
      exact ⟨(step_outside (by simp [isOrdinary, startsPair_of_pairSymbol? found])).symm, still, trivial,
        forall_mem_cons.mpr ⟨trivial, plain⟩⟩
    · exact after steps

theorem Tracks.run (tracks : Tracks q r) (reads : s.foldlM Token.step r = .ok r') :
    Tracks (s.foldl Quotation.step q) r' := by
  induction s generalizing q r with
  | nil =>
    cases reads
    exact tracks
  | cons b s ih =>
    obtain ⟨next, steps, rest⟩ := exists_of_bind_eq_ok reads
    exact ih (tracks.step steps) rest

theorem tracks_of_reads (reads : s.foldlM step {} = .ok r) : Tracks (s.foldl Quotation.step .outside) r :=
  Tracks.run (r := {}) ⟨rfl, by decide, trivial, forall_mem_nil _⟩ reads

/-- A text is read byte by byte, and the token at its end is settled. -/
theorem exists_of_readAll (read : readAll s = .ok tokens) :
    ∃ r ts, s.foldlM step {} = .ok r ∧ settle r = .ok ts ∧ ts.reverse = tokens := by
  obtain ⟨ts, ends, same⟩ := exists_of_bind_eq_ok read
  obtain ⟨r, reads, settles⟩ := exists_of_bind_eq_ok ends
  exact ⟨r, ts, reads, settles, by injection same⟩

/-- The tokens without the parentheses. -/
def bare (ts : List Token) : List Token := ts.filter fun t => t ≠ .symbol .open && t ≠ .symbol .close

/-- The parts of a type name and what joins them; `read` is the beginning of the first part. -/
def ofType (read : Text) : Text → List Token
  | [] => [.name read]
  | b :: s =>
    if b == '.' then .name read :: .symbol .dot :: ofType [] s
    else if b == ':' then .name read :: .symbol .colon :: ofType [] s
    else ofType (read ++ [b]) s

theorem ofType_plain {part : Text} (plain : ∀ c ∈ part, continuesName c) : ∀ read, ofType read part = [.name (read ++ part)] := by
  induction part with
  | nil => simp [ofType]
  | cons b part ih =>
    obtain ⟨first, others⟩ := forall_mem_cons.mp plain
    have notDot : b ≠ '.' := fun same => by rw [same] at first; revert first; decide
    have notColon : b ≠ ':' := fun same => by rw [same] at first; revert first; decide
    simp [ofType, notDot, notColon, ih others]

theorem ofType_append (symbol : Symbol) (joins : symbol = .dot ∨ symbol = .colon) (s t : Text) :
    ∀ read, ofType read (s ++ symbol.text ++ t) = ofType read s ++ .symbol symbol :: ofType [] t := by
  induction s with
  | nil =>
    rcases joins with rfl | rfl
    · exact fun read => rfl
    · exact fun read => rfl
  | cons b s ih =>
    intro read
    simp only [cons_append, ofType, ih]
    split
    · rfl
    split
    · rfl
    · rfl

/-- The tokens are those of `read`, but for parentheses, and then `rest`. -/
def Covers (ts rest read : List Token) : Prop :=
  (∀ t ∈ ts, t.Plain) → bare ts = read ++ bare rest ∧ ∀ t ∈ rest, t.Plain

theorem Covers.trans {ts us rest read more : List Token} (first : Covers ts us read) (second : Covers us rest more) :
    Covers ts rest (read ++ more) := by
  intro plain
  obtain ⟨before, plain⟩ := first plain
  obtain ⟨after, plain⟩ := second plain
  exact ⟨by rw [before, after, append_assoc], plain⟩

theorem covers_cons (t : Token) (rest : List Token) : Covers (t :: rest) rest (bare [t]) :=
  fun plain => ⟨filter_append [t] rest, (forall_mem_cons.mp plain).2⟩

theorem Covers.skip {ts us rest read : List Token} (first : Covers ts us read) (second : Covers us rest []) :
    Covers ts rest read := by
  simpa using first.trans second

end Token

namespace Expr

mutual

/-- The tokens of the tree from left to right, without parentheses. -/
def leaves : Expr → List Token
  | .ident _ name => [.name name]
  | .literal _ kind value => [Token.ofLiteral value kind]
  | .binary _ op x y => leaves x ++ .symbol (.binary op) :: leaves y
  | .unary _ op x => Token.ofUnary op :: leaves x
  | .call _ f args => leaves f ++ argLeaves args
  | .member _ x name => leaves x ++ [.symbol .dot, .name name]
  | .create _ type args => .name "new" :: (Token.ofType [] type ++ argLeaves args)

def argLeaves : List Expr → List Token
  | [] => []
  | [x] => leaves x
  | x :: xs => leaves x ++ .symbol .comma :: argLeaves xs

end

theorem leaves_ofName (line : Nat) (name : Text) : (ofName line name).leaves = [.name name] := by
  unfold ofName
  split
  · rfl
  split
  · rfl
  · rfl

end Expr

namespace Grammar

open Token Expr

variable {line : Nat}

theorem TypeName.covers {type whole : Text} {ts rest : List Token} (named : TypeName type ts rest whole) :
    (∀ t ∈ ts, t.Plain) → ofType [] type ++ bare ts = ofType [] whole ++ bare rest ∧ ∀ t ∈ rest, t.Plain := by
  induction named with
  | done _ _ => exact fun plain => ⟨rfl, plain⟩
  | @more type part whole s ts rest joins _ ih =>
    intro plain
    obtain ⟨_, name, plain⟩ := by simpa only [forall_mem_cons] using plain
    obtain ⟨same, plain⟩ := ih plain
    rw [ofType_append s joins, ofType_plain (continuesName_of_mem name), append_assoc] at same
    refine ⟨?_, plain⟩
    rw [← same]
    rcases joins with rfl | rfl
    · rfl
    · rfl

theorem TypeName.covers_new {part type : Text} {ts rest : List Token} (named : TypeName part ts rest type) :
    Covers (.name "new" :: .name part :: ts) rest (.name "new" :: ofType [] type) := by
  intro plain
  obtain ⟨_, name, plain⟩ := by simpa only [forall_mem_cons] using plain
  obtain ⟨same, plain⟩ := named.covers plain
  rw [ofType_plain (continuesName_of_mem name)] at same
  exact ⟨congrArg (Token.name "new" :: ·) same, plain⟩

mutual

theorem Phrase.covers : ∀ {n ts rest e}, Phrase line n ts rest e → Covers ts rest e.leaves
  | _, _, _, _, .number _ rest => covers_cons _ rest
  | _, _, _, _, .string _ rest => covers_cons _ rest
  | _, _, _, _, .name rest _ => leaves_ofName line _ ▸ covers_cons _ rest
  | _, _, _, _, .group inner => ((covers_cons _ _).trans inner.covers).skip (covers_cons _ _)
  | _, _, _, _, .member base => base.covers.trans ((covers_cons _ _).trans (covers_cons _ _))
  | _, _, _, _, .call callee args => callee.covers.trans ((covers_cons _ _).trans args.covers)
  | _, _, _, _, .create named args => named.covers_new.trans ((covers_cons _ _).trans args.covers)
  | _, _, _, _, .bare named => by simpa [leaves, argLeaves] using named.covers_new
  | _, _, _, _, .unary op operand _ => by
    cases op with
    | neg | not => exact (covers_cons _ _).trans operand.covers
  | _, _, _, _, .binary left _ right _ => left.covers.trans ((covers_cons _ _).trans right.covers)

theorem Arguments.covers : ∀ {ts rest xs}, Arguments line ts rest xs → Covers ts rest (argLeaves xs)
  | _, _, _, .none rest => covers_cons _ rest
  | _, _, _, .last phrase => phrase.covers.skip (covers_cons _ _)
  | _, _, _, .more phrase args filled => by
    rw [argLeaves]
    · exact phrase.covers.trans ((covers_cons _ _).trans args.covers)
    · exact filled

end

end Grammar

theorem Expr.leaves_of_phrase {line n : Nat} {s : Text} {ts : List Token} {e : Expr} (read : Token.readAll s = .ok ts)
    (phrase : Grammar.Phrase line n ts [] e) : Token.bare ts = e.leaves ∧ ∀ t ∈ ts, t.Plain := by
  obtain ⟨r, tokens, reads, settles, rfl⟩ := Token.exists_of_readAll read
  have plain := ((Token.tracks_of_reads reads).settle settles).2
  have plain : ∀ t ∈ tokens.reverse, t.Plain := fun t found => plain t (mem_reverse.mp found)
  exact ⟨(phrase.covers plain).1.trans (append_nil _), plain⟩

/-- An expression is read from exactly the phrases of the grammar, and its leaves are their tokens but for the
parentheses. -/
theorem Expr.parse_eq_ok_iff_phrase (line : Nat) (s : Text) (e : Expr) : parse line s = .ok e ↔
    ∃ ts n, Token.readAll s = .ok ts ∧ Grammar.Phrase line n ts [] e ∧ Token.bare ts = e.leaves := by
  constructor
  · intro parsed
    obtain ⟨ts, n, read, phrase⟩ := phrase_of_parse parsed
    exact ⟨ts, n, read, phrase, (leaves_of_phrase read phrase).1⟩
  · rintro ⟨ts, n, read, phrase, _⟩
    rw [parse, read]
    exact phrase.ofTokens

end ScriptBuild
