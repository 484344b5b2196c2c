import Mathlib.Data.List.Basic
import ScriptBuild.Proofs.ExternComments
import ScriptBuild.Stub.TypeName

/-! Types of externs. -/

namespace ScriptBuild

open List Text

namespace Text

variable {s p : Text}

theorem startsWith_iff : startsWith s p ↔ p <+: s := by
  rw [startsWith, Option.isSome_iff_exists]
  constructor
  · rintro ⟨rest, found⟩
    exact ⟨rest, (append_of_dropPrefix? found).symm⟩
  · rintro ⟨rest, rfl⟩
    exact ⟨rest, Text.dropPrefix?_append p rest⟩

theorem endsWith_iff : endsWith s p ↔ p <:+ s := by rw [endsWith, startsWith_iff, reverse_prefix]

end Text

namespace TypeName

inductive IsPair : UInt8 → UInt8 → Prop
  | paren : IsPair '(' ')'
  | angle : IsPair '<' '>'
  | brace : IsPair '\x7b' '\x7d'
  | square : IsPair '[' ']'

/-- Brackets close what they open; a separator, if there is one, stands inside brackets only. -/
inductive Bracketed : Option UInt8 → Text → Prop
  | nil {sep : Option UInt8} : Bracketed sep []
  | cons {sep : Option UInt8} {b : UInt8} {s : Text} (plain : depthChange b = 0) (other : some b ≠ sep)
      (rest : Bracketed sep s) : Bracketed sep (b :: s)
  | group {sep : Option UInt8} {opening closing : UInt8} {inner s : Text} (pair : IsPair opening closing)
      (inside : Bracketed none inner) (rest : Bracketed sep s) : Bracketed sep (opening :: (inner ++ closing :: s))

variable {k : Option UInt8} {sep : UInt8} {s t : Text}

namespace Bracketed

theorem append (first : Bracketed k s) (second : Bracketed k t) : Bracketed k (s ++ t) := by
  induction first with
  | nil => exact second
  | cons plain other _ ih => exact .cons plain other (ih second)
  | group pair inside _ _ ih =>
    rw [cons_append, append_assoc]
    exact .group pair inside (ih second)

theorem of_plain (plain : ∀ b ∈ s, depthChange b = 0 ∧ some b ≠ k) : Bracketed k s := by
  induction s with
  | nil => exact .nil
  | cons b s ih =>
    obtain ⟨first, others⟩ := forall_mem_cons.mp plain
    exact .cons first.1 first.2 (ih others)

theorem isBalanced_append (bracketed : Bracketed k s) (depth : Nat) (t : Text) :
    isBalanced depth (s ++ t) = isBalanced depth t := by
  induction bracketed generalizing depth t with
  | nil => rfl
  | @cons _ b s plain _ _ ih =>
    have neither : opensGroup b = false ∧ closesGroup b = false := by
      unfold depthChange at plain
      grind
    simp [isBalanced, neither, ih]
  | group pair _ _ inner_ih ih =>
    rw [cons_append, append_assoc, cons_append]
    cases pair
    all_goals exact (inner_ih _ _).trans (ih depth t)

theorem splitOutside_ne_nil (sep : UInt8) (depth : Int) (s : Text) : splitOutside sep depth s ≠ [] := by
  cases s with
  | nil => simp [splitOutside]
  | cons b s =>
    rw [splitOutside]
    split
    · exact cons_ne_nil _ _
    · cases splitOutside sep (depth + depthChange b) s <;> exact cons_ne_nil _ _

theorem splitOutside_cons {b : UInt8} {depth : Int} (inside : ¬ (b == sep && depth == 0)) (s : Text) :
    splitOutside sep depth (b :: s) = (splitOutside sep (depth + depthChange b) s).modifyHead (b :: ·) := by
  rw [splitOutside, if_neg inside]
  cases parts : splitOutside sep (depth + depthChange b) s with
  | nil => exact absurd parts (splitOutside_ne_nil sep _ s)
  | cons part parts => rfl

theorem splitOutside_append (bracketed : Bracketed k s) (mark : depthChange sep = 0) {depth : Int} (nested : 0 ≤ depth)
    (kind : depth = 0 → k = some sep) (t : Text) :
    splitOutside sep depth (s ++ t) = (splitOutside sep depth t).modifyHead (s ++ ·) := by
  induction bracketed generalizing depth t with
  | nil => exact (modifyHead_id ▸ rfl)
  | @cons _ b s plain other _ ih =>
    have inside : ¬ (b == sep && depth == 0) := by
      intro both
      simp only [Bool.and_eq_true, beq_iff_eq] at both
      exact other (by rw [kind both.2, both.1])
    rw [cons_append, splitOutside_cons inside, plain, Int.add_zero, ih nested kind, modifyHead_modifyHead]
    rfl
  | @group _ opening closing inner s pair _ _ inner_ih ih =>
    have opens : depthChange opening = 1 ∧ depthChange closing = -1 := by cases pair <;> decide
    have other : ∀ {b : UInt8} {depth : Int}, depthChange b ≠ 0 → ¬ (b == sep && depth == 0) := by
      intro b depth bracket both
      simp only [Bool.and_eq_true, beq_iff_eq] at both
      exact bracket (both.1 ▸ mark)
    rw [cons_append, append_assoc, cons_append, splitOutside_cons (other (by omega)), opens.1,
      inner_ih (by omega) (by omega), splitOutside_cons (other (by omega)), opens.2, Int.add_neg_cancel_right,
      ih nested kind]
    simp [modifyHead_modifyHead, Function.comp_def]

end Bracketed

theorem splitOutside_join (mark : depthChange sep = 0) {texts : List Text} (filled : texts ≠ [])
    (bracketed : ∀ s ∈ texts, Bracketed (some sep) s) : splitOutside sep 0 (join [sep] texts) = texts := by
  induction texts with
  | nil => exact absurd rfl filled
  | cons s texts ih =>
    obtain ⟨first, others⟩ := forall_mem_cons.mp bracketed
    by_cases last : texts = []
    · have whole := first.splitOutside_append mark (Int.le_refl 0) (fun _ => rfl) []
      rw [append_nil] at whole
      simp [last, join, whole, splitOutside]
    · rw [join_cons_cons _ _ _ last, first.splitOutside_append mark (Int.le_refl 0) fun _ => rfl]
      simp [splitOutside, ih last others]

/-- One record type: the first brace is closed by the last one. -/
def IsRecord (t : Text) : Prop := ∃ inner, Bracketed none inner ∧ t = "\x7b" ++ (inner ++ "\x7d")

theorem isSome_recordFields? : (recordFields? s).isSome ↔ ("\x7b" : Text) <+: trim s ∧ ("\x7d" : Text) <:+ trim s := by
  rw [← startsWith_iff, ← endsWith_iff, recordFields?]
  cases startsWith (trim s) "\x7b" <;> cases endsWith (trim s) "\x7d" <;> simp

/-- What follows a record that a text begins with keeps the text from being one. -/
theorem IsRecord.not_append {r rest : Text} (record : IsRecord r) (ends : ("\x7d" : Text) <:+ rest) :
    ¬ IsRecord (r ++ rest) := by
  rintro ⟨whole, bracketed, same⟩
  obtain ⟨inner, inside, rfl⟩ := record
  obtain ⟨more, rfl⟩ := ends
  have cut : whole ++ "\x7d" = inner ++ ("\x7d" ++ more) ++ "\x7d" := by simpa using same.symm
  have balanced := bracketed.isBalanced_append 0 []
  rw [append_nil, append_cancel_right cut, inside.isBalanced_append] at balanced
  cases balanced

theorem isRecord_or (bracketed : Bracketed none t) (starts : ("\x7b" : Text) <+: t) (ends : ("\x7d" : Text) <:+ t) :
    IsRecord t ∨ ∃ r rest, IsRecord r ∧ ("\x7d" : Text) <:+ rest ∧ t = r ++ rest := by
  obtain ⟨after, rfl⟩ := starts
  generalize whole : ("\x7b" : Text) ++ after = t at bracketed ends
  cases bracketed with
  | nil => cases whole
  | cons plain =>
    obtain ⟨rfl, _⟩ := cons.inj whole
    cases plain
  | @group _ opening closing inner rest pair inside =>
    have first : '\x7b' = opening := (cons.inj whole).1
    subst first
    cases pair
    have record : IsRecord ("\x7b" ++ (inner ++ "\x7d")) := ⟨inner, inside, rfl⟩
    have split : ('\x7b' : UInt8) :: (inner ++ ('\x7d' : UInt8) :: rest) = "\x7b" ++ (inner ++ "\x7d") ++ rest := by
      simp only [append_assoc]
      rfl
    rw [split] at ends ⊢
    by_cases last : rest = []
    · rw [last, append_nil]
      exact .inl record
    · exact .inr ⟨_, rest, record,
        suffix_of_suffix_length_le ends (suffix_append _ rest) (length_pos_iff.mpr last), rfl⟩

/-- A field of a record as it is written, with blanks around its name and its type. -/
structure IsField (name type : Text) : Prop where
  named : trim name ≠ []
  plain : ∀ b ∈ name, depthChange b = 0 ∧ b ∉ (",:" : Text)
  typed : Bracketed (some ',') type

def fieldText (f : Text × Text) : Text := f.1 ++ (":" ++ f.2)

variable {f : Text × Text}

theorem IsField.bracketed (field : IsField f.1 f.2) : Bracketed (some ',') (fieldText f) := by
  have name : Bracketed (some ',') f.1 := .of_plain fun b mem => by
    obtain ⟨plain, other⟩ := field.plain b mem
    refine ⟨plain, ?_⟩
    rintro ⟨rfl⟩
    exact other (by decide)
  exact name.append (.cons (by decide) (by decide) field.typed)

theorem IsField.cut_eq (field : IsField f.1 f.2) : Text.cut ":" (fieldText f) = f := by
  have absent : (':' : UInt8) ∉ f.1 := fun mem => (field.plain _ mem).2 (by decide)
  have found : Text.cut? ":" (fieldText f) = (Text.cut? ":" (":" ++ f.2)).map _ := cut?_append absent _
  rw [Text.cut, found]
  exact Prod.ext (append_nil _) rfl

/-- A text that begins with a record and ends with a brace is taken for a record. Of those only the record itself is
one, and its fields are found as they are written. -/
theorem recordFields?_isSome_iff (s : Text) :
    (Bracketed none (trim s) → (((recordFields? s).isSome ↔ IsRecord (trim s)) ↔
      ¬ ∃ r rest, IsRecord r ∧ ("\x7d" : Text) <:+ rest ∧ trim s = r ++ rest)) ∧
    ∀ fields : List (Text × Text), (∀ f ∈ fields, IsField f.1 f.2) →
      trim s = "\x7b" ++ (join "," (fields.map fieldText) ++ "\x7d") →
      recordFields? s = some (fields.map fun f => (trim f.1, trim f.2)) := by
  refine ⟨fun bracketed => ?_, fun fields each whole => ?_⟩
  · rw [isSome_recordFields?]
    constructor
    · rintro exact_ ⟨r, rest, record, ends, whole⟩
      have starts : ("\x7b" : Text) <+: r := by
        obtain ⟨inner, _, rfl⟩ := record
        exact prefix_append _ _
      rw [whole] at exact_
      exact record.not_append ends (exact_.mp ⟨starts.trans (prefix_append r rest), ends.trans (suffix_append r rest)⟩)
    · intro alone
      constructor
      · rintro ⟨starts, ends⟩
        exact (isRecord_or bracketed starts ends).resolve_right alone
      · rintro ⟨inner, _, whole⟩
        rw [whole]
        exact ⟨prefix_append _ _, (suffix_append inner _).trans (suffix_append _ _)⟩
  · generalize joined : join "," (fields.map fieldText) = inner at whole
    have opens : startsWith ("\x7b" ++ (inner ++ "\x7d")) "\x7b" := rfl
    have closes : endsWith ("\x7b" ++ (inner ++ "\x7d")) "\x7d" :=
      endsWith_iff.mpr ((suffix_append inner _).trans (suffix_append _ _))
    have inside : ((("\x7b" : Text) ++ (inner ++ "\x7d")).drop 1).dropLast = inner := dropLast_concat
    rw [recordFields?, whole]
    simp only [opens, closes, inside]
    refine congrArg some ?_
    by_cases empty : fields = []
    · subst empty joined
      rfl
    · have divided : splitOutside ',' 0 inner = fields.map fieldText := joined ▸ splitOutside_join (by decide)
        (by simpa using empty) (forall_mem_map.mpr fun f mem => (each f mem).bracketed)
      rw [divided, filterMap_map, ← filterMap_eq_map]
      refine filterMap_congr fun f mem => ?_
      simp [(each f mem).cut_eq, (each f mem).named]

/-- A union of records is not a record, and yet it has a field. -/
theorem recordFields?_union : recordFields? "\x7ba: number\x7d|\x7bb: string\x7d" =
    some [(("a" : Text), ("number\x7d|\x7bb: string" : Text))] := by
  decide +kernel

end TypeName

end ScriptBuild
