import ScriptBuild.Text.Rune

/-! An externs file as a sequence of statements. -/

namespace ScriptBuild

open Text

structure ExternStatement where
  doc : Text
  text : Text
  line : Nat
  deriving DecidableEq

namespace ExternStatement

structure Place where
  /-- Whether the statement is a function declaration, which a brace closes. -/
  isFunction : Bool
  depth : Int := 0
  quote : Option UInt8 := none
  escaped : Bool := false

def Place.step (p : Place) (b : UInt8) : Place :=
  if p.escaped then { p with escaped := false }
  else
    match p.quote with
    | some quote =>
      if b == '\\' then { p with escaped := true }
      else if b == quote then { p with quote := none }
      else p
    | none =>
      if b == '\'' || b == '"' then { p with quote := some b }
      else if b == '(' || b == '[' || b == '\x7b' then { p with depth := p.depth + 1 }
      else if b == ')' || b == ']' || b == '\x7d' then { p with depth := p.depth - 1 }
      else p

def Place.endsAt (p : Place) (b : UInt8) : Bool :=
  !p.escaped && p.quote.isNone &&
    ((b == ';' && p.depth == 0) || (b == '\x7d' && p.depth == 1 && p.isFunction))

def take (p : Place) : Text → Text × Text
  | [] => ([], [])
  | b :: s =>
    if p.endsAt b then ([b], s)
    else
      let (text, rest) := take (p.step b) s
      (b :: text, rest)

theorem take_length (p : Place) (s : Text) : (take p s).1.length + (take p s).2.length = s.length := by
  induction s generalizing p with
  | nil => rfl
  | cons b s ih =>
    simp only [take]
    split
    · simp; omega
    · have := ih (p.step b)
      simp only [List.length_cons]
      omega

theorem take_cons_length (p : Place) (b : UInt8) (s : Text) : (take p (b :: s)).2.length < (b :: s).length := by
  have total := take_length p (b :: s)
  have nonempty : 0 < (take p (b :: s)).1.length := by
    simp only [take]
    split <;> simp
  omega

def comment (s : Text) : Text × Text := (cut? "*/" s).getD (s, [])

theorem comment_length (s : Text) : (comment s).2.length ≤ s.length := by
  unfold comment
  cases found : cut? "*/" s with
  | none => simp
  | some pair =>
    obtain ⟨body, rest⟩ := pair
    have := cut?_length found
    simp only [Option.getD_some]
    omega

def newlines (s : Text) : Nat := s.countP fun (b : UInt8) => b == '\n'

/-- The statements of `s`, whose first byte stands on `line`, after the documentation `doc`. -/
def scan (doc : Text) (line : Nat) (s : Text) : List ExternStatement :=
  match s with
  | [] => []
  | b :: rest =>
    if b == '\n' then scan doc (line + 1) rest
    else if b == ' ' || b == '\t' || b == '\r' then scan doc line rest
    else
      match _found : dropPrefix? "/*" (b :: rest) with
      | some inner =>
        match _isDoc : dropPrefix? "*" inner with
        | some body =>
          scan (comment body).1 (line + newlines (comment body).1) (comment body).2
        | none => scan doc (line + newlines (comment inner).1) (comment inner).2
      | none =>
        if startsWith (b :: rest) "//" then
          match _next : cut? "\n" (b :: rest) with
          | none => []
          | some (_, after) => scan doc (line + 1) after
        else
          let place : Place := { isFunction := startsWith (b :: rest) "function " }
          ⟨doc, trim (take place (b :: rest)).1, line⟩ ::
            scan [] (line + newlines (take place (b :: rest)).1) (take place (b :: rest)).2
termination_by s.length
decreasing_by
  · simp
  · simp
  · have first := dropPrefix?_length _found
    have second := dropPrefix?_length _isDoc
    have bound := comment_length body
    have marks : (ofString "/*").length = 2 := by decide
    simp only [List.length_cons] at *
    omega
  · have first := dropPrefix?_length _found
    have bound := comment_length inner
    have marks : (ofString "/*").length = 2 := by decide
    simp only [List.length_cons] at *
    omega
  · have parts := cut?_length _next
    have mark : (ofString "\n").length = 1 := by decide
    simp only [List.length_cons] at *
    omega
  · exact take_cons_length _ b rest

end ExternStatement

def externStatements (source : Text) : List ExternStatement := ExternStatement.scan [] 1 source

end ScriptBuild
