import Mathlib.Data.List.Induction
import ScriptBuild.Proofs.FilePresence
import ScriptBuild.Proofs.ModuleNames

/-! Where files are kept. -/

namespace ScriptBuild

open List ScriptBuild.Path Text

variable {p c q : Text} {rooted : Bool} {cs : List Text}

namespace Path

theorem ne_nil_of_isAbsolute (rooted : isAbsolute p) : p ≠ [] := by
  rintro rfl
  cases rooted

/-- What cleaning keeps of a component, apart from `..`. -/
def IsKept (c : Text) : Prop := c ≠ [] ∧ c ≠ "."

theorem of_mem_push {stack : List Text} {part : Text} (mem : c ∈ push rooted stack part) :
    c ∈ stack ∨ c = part ∧ IsKept part := by
  unfold push at mem
  split at mem
  · exact .inl mem
  · rename_i kept
    simp only [Bool.or_eq_true, List.isEmpty_iff, beq_iff_eq, not_or] at kept
    split at mem
    · cases stack with
      | nil =>
        cases rooted with
        | true => cases mem
        | false => exact .inr ⟨mem_singleton.mp mem, kept⟩
      | cons top below =>
        dsimp only at mem
        split at mem
        · rcases mem_cons.mp mem with same | old
          · exact .inr ⟨same, kept⟩
          · exact .inl old
        · exact .inl (mem_cons_of_mem top mem)
    · rcases mem_cons.mp mem with same | old
      · exact .inr ⟨same, kept⟩
      · exact .inl old

theorem of_mem_foldl_push (parts : List Text) :
    ∀ stack, c ∈ parts.foldl (push rooted) stack → c ∈ stack ∨ c ∈ parts ∧ IsKept c := by
  induction parts with
  | nil => exact fun _ mem => .inl mem
  | cons part parts ih =>
    intro stack mem
    rcases ih _ mem with early | ⟨inside, kept⟩
    · rcases of_mem_push early with old | ⟨rfl, kept⟩
      · exact .inl old
      · exact .inr ⟨mem_cons_self, kept⟩
    · exact .inr ⟨mem_cons_of_mem part inside, kept⟩

theorem kept_of_mem_components (mem : c ∈ components p) : IsKept c ∧ ('/' : UInt8) ∉ c := by
  rcases of_mem_foldl_push _ _ (mem_reverse.mp mem) with none | ⟨inside, kept⟩
  · cases none
  · exact ⟨kept, (of_mem_split inside).1⟩

/-- Carrying out `..` among some components first changes nothing to what they do after others. -/
theorem foldl_push_settled (rooted : Bool) (parts stack : List Text) :
    (parts.foldl (push false) []).reverse.foldl (push rooted) stack = parts.foldl (push rooted) stack := by
  induction parts using reverseRecOn with
  | nil => rfl
  | append_singleton parts c ih =>
    rw [foldl_append, foldl_append, foldl_cons, foldl_nil, foldl_cons, foldl_nil, ← ih]
    have elements : ∀ x ∈ parts.foldl (push false) [], IsKept x := by
      intro x mem
      rcases of_mem_foldl_push _ _ mem with none | ⟨_, kept⟩
      · cases none
      · exact kept
    generalize parts.foldl (push false) [] = settled at elements
    by_cases skipped : c.isEmpty || c == "."
    · simp [push, skipped]
    by_cases up : c == ".."
    · cases settled with
      | nil => simp [push, skipped, up]
      | cons top below =>
        by_cases dots : top == ".."
        · simp [push, skipped, dots]
        · have kept := elements top mem_cons_self
          have pushed : ∀ stack, push rooted stack top = top :: stack := by
            simp [push, kept.1, kept.2, dots]
          have taken : ∀ rooted stack, push rooted (top :: stack) c = stack := by
            simp [push, skipped, up, dots]
          -- The component that `..` takes back was put on the stack just before.
          rw [taken, reverse_cons, foldl_append, foldl_cons, foldl_nil, pushed, taken]
    · simp [push, skipped, up]

theorem join_filled (filled : cs ≠ []) (kept : ∀ c ∈ cs, IsKept c ∧ ('/' : UInt8) ∉ c) :
    Text.join "/" cs ≠ [] ∧ isAbsolute (Text.join "/" cs) = false := by
  obtain ⟨c, cs, rfl⟩ := exists_cons_of_ne_nil filled
  obtain ⟨⟨here, _⟩, plain⟩ := kept c mem_cons_self
  obtain ⟨b, c, rfl⟩ := exists_cons_of_ne_nil here
  have head : (Text.join "/" ((b :: c) :: cs)).head? = some b := by
    cases cs with
    | nil => rfl
    | cons next cs => rw [join_cons_cons _ _ _ (cons_ne_nil _ _)]; rfl
  have other : b ≠ ('/' : UInt8) := fun same => plain (same ▸ mem_cons_self)
  refine ⟨fun none => by simp [none] at head, ?_⟩
  simp [isAbsolute, head, other]

theorem clean_of_relative (relative : isAbsolute p = false) :
    clean p = if components p = [] then ("." : Text) else Text.join "/" (components p) := by
  unfold clean
  rw [relative]
  by_cases none : components p = []
  · simp [none, Text.join]
  · have filled := (join_filled none fun c => kept_of_mem_components).1
    simp [none, filled]

@[simp] theorem isAbsolute_clean_eq (p : Text) : isAbsolute (clean p) = isAbsolute p := by
  cases rooted : isAbsolute p with
  | true => exact isAbsolute_clean rooted
  | false =>
    rw [clean_of_relative rooted]
    split
    · rfl
    · rename_i filled
      exact (join_filled filled fun c => kept_of_mem_components).2

@[simp] theorem components_clean (p : Text) : components (clean p) = components p := by
  cases rooted : isAbsolute p with
  | true =>
    rw [clean_of_isAbsolute rooted]
    exact components_join (isComponent_of_mem_components rooted)
  | false =>
    have same : isAbsolute (clean p) = false := by rw [isAbsolute_clean_eq, rooted]
    rw [clean_of_relative rooted] at same ⊢
    split at same
    · rename_i none
      rw [none]
      rfl
    · rename_i filled
      rw [if_neg filled, components, same, show Text.join "/" (components p) = Text.join [('/' : Char)] (components p)
        from rfl, split_join filled fun c mem => (kept_of_mem_components mem).2]
      conv => lhs; rw [components, rooted, foldl_push_settled]
      rw [components, rooted]

theorem clean_eq (rooted : isAbsolute p = isAbsolute q) (same : components p = components q) : clean p = clean q := by
  simp [clean, rooted, same]

@[simp] theorem clean_clean_eq (p : Text) : clean (clean p) = clean p := clean_eq (by simp) (by simp)

theorem clean_ne_nil (p : Text) : clean p ≠ [] := by
  cases rooted : isAbsolute p with
  | true => rw [clean_of_isAbsolute rooted]; exact cons_ne_nil _ _
  | false =>
    rw [clean_of_relative rooted]
    split
    · exact cons_ne_nil _ _
    · rename_i filled
      exact (join_filled filled fun c => kept_of_mem_components).1

theorem isAbsolute_child (filled : q ≠ []) (s : Text) : isAbsolute (q ++ ("/" ++ s)) = isAbsolute q := by
  cases q with
  | nil => exact absurd rfl filled
  | cons b q => rfl

theorem components_child (filled : q ≠ []) (proper : IsComponent c) :
    components (q ++ ("/" ++ c)) = components q ++ [c] := by
  rw [components_append q c filled, split_of_not_mem proper.2.2.2, foldl_cons, push_component proper]
  simp

theorem clean_append_slash (filled : q ≠ []) : clean (q ++ "/") = clean q := by
  refine clean_eq (isAbsolute_child filled []) ?_
  have parts := components_append q [] filled
  rw [append_nil] at parts
  simp [parts, split, push]

theorem clean_child (filled : q ≠ []) (proper : IsComponent c) : clean (q ++ ("/" ++ c)) =
      if components q = [] then if isAbsolute q then "/" ++ c else c else clean q ++ ("/" ++ c) := by
  have parts := components_child filled proper
  have rooted := isAbsolute_child filled c
  have single : Text.join "/" [c] = c := by simp [Text.join]
  by_cases none : components q = []
  · cases absolute : isAbsolute q with
    | true => rw [clean_of_isAbsolute (rooted.trans absolute), parts, none, nil_append, single]; rfl
    | false => rw [clean_of_relative (rooted.trans absolute), parts, none, nil_append, single]; rfl
  · rw [if_neg none]
    have joined := join_append "/" none (cons_ne_nil c [])
    cases absolute : isAbsolute q with
    | true =>
      rw [clean_of_isAbsolute (rooted.trans absolute), parts, joined, single, clean_of_isAbsolute absolute]
      simp
    | false =>
      rw [clean_of_relative (rooted.trans absolute), parts, joined, single, clean_of_relative absolute, if_neg none]
      simp

theorem splitLast_child (q : Text) (plain : ('/' : UInt8) ∉ c) :
    splitLast (q ++ ("/" ++ c)) = (q ++ "/", c) := by
  unfold splitLast
  rw [show cutLast? "/" (q ++ ("/" ++ c)) = some (q, c) from cutLast?_append_cons q plain]

theorem splitLast_plain (plain : ('/' : UInt8) ∉ c) : splitLast c = ([], c) := by
  unfold splitLast
  rw [show cutLast? "/" c = none from cutLast?_append [] plain]

theorem splitLast_join (filled : q ≠ []) (proper : IsComponent c) :
    ∃ front, splitLast (join [q, c]) = (front, c) ∧ clean front = clean q := by
  rw [join_of_ne_nil filled, clean_child filled proper]
  by_cases none : components q = []
  · rw [if_pos none]
    cases absolute : isAbsolute q with
    | true =>
      refine ⟨"/", splitLast_child [] proper.2.2.2, ?_⟩
      rw [clean_of_isAbsolute absolute, none]
      rfl
    | false =>
      refine ⟨[], splitLast_plain proper.2.2.2, ?_⟩
      rw [clean_of_relative absolute, if_pos none]
      rfl
  · rw [if_neg none]
    refine ⟨clean q ++ "/", splitLast_child _ proper.2.2.2, ?_⟩
    rw [clean_append_slash (clean_ne_nil q), clean_clean_eq]

theorem exists_last_slash (p : Text) :
    ('/' : UInt8) ∉ p ∨ ∃ x c, p = x ++ ("/" ++ c) ∧ ('/' : UInt8) ∉ c := by
  by_cases slash : ('/' : UInt8) ∈ p.reverse
  · obtain ⟨c, x, split, plain⟩ := eq_append_cons_of_mem slash
    refine .inr ⟨x.reverse, c.reverse, ?_, by simpa using plain⟩
    rw [← reverse_reverse p, split]
    simp
    rfl
  · exact .inl (by simpa using slash)

theorem base_eq (ends : ∃ b, p.getLast? = some b ∧ b ≠ ('/' : UInt8)) : base p = (splitLast p).2 := by
  obtain ⟨b, last, other⟩ := ends
  have filled : p ≠ [] := fun none => by simp [none] at last
  have whole : trimRightBytes (fun x => x == ('/' : UInt8)) p = p := by
    rw [← head?_reverse] at last
    obtain ⟨rest, reversed⟩ := head?_eq_some_iff.mp last
    rw [trimRightBytes, reversed, dropWhile_cons_of_neg (by simpa using other), ← reversed, reverse_reverse]
  unfold base
  rw [whole]
  simp [filled]

section

variable (x : Text) (filled : c ≠ []) (plain : ('/' : UInt8) ∉ c)

include filled plain

theorem getLast?_child : ∃ b, (x ++ c).getLast? = some b ∧ b ≠ ('/' : UInt8) := by
  obtain ⟨b, last⟩ := Option.ne_none_iff_exists'.mp (mt getLast?_eq_none_iff.mp filled)
  refine ⟨b, by simp [getLast?_append, last], ?_⟩
  rintro rfl
  exact plain (mem_of_getLast? last)

theorem base_plain : base c = c := by
  have ends := getLast?_child [] filled plain
  rw [nil_append] at ends
  rw [base_eq ends, splitLast_plain plain]

theorem base_child : base (x ++ ("/" ++ c)) = c := by
  have ends := getLast?_child (x ++ "/") filled plain
  rw [append_assoc] at ends
  rw [base_eq ends, splitLast_child x plain]

end

/-- What follows the last slash is no longer than the last component. -/
theorem length_splitLast_le (p : Text) : (splitLast p).2.length ≤ (base p).length := by
  rcases exists_last_slash p with plain | ⟨x, c, rfl, plain⟩
  · rw [splitLast_plain plain]
    by_cases none : p = []
    · simp [none]
    · exact Nat.le_of_eq (by rw [base_plain none plain])
  · rw [splitLast_child x plain]
    by_cases none : c = []
    · simp [none]
    · exact Nat.le_of_eq (by rw [base_child x none plain])

/-- A cleaned path ends with the last of its components. -/
theorem clean_eq_append (parts : components p = cs ++ [c]) : clean p = c ∨ ∃ front, clean p = front ++ ("/" ++ c) := by
  have single : Text.join "/" [c] = c := by simp [Text.join]
  cases rooted : isAbsolute p with
  | true =>
    right
    rw [clean_of_isAbsolute rooted, parts]
    by_cases none : cs = []
    · exact ⟨[], by rw [none, nil_append, single]; rfl⟩
    · exact ⟨"/" ++ Text.join "/" cs, by rw [join_append "/" none (cons_ne_nil _ _), single]; simp⟩
  | false =>
    rw [clean_of_relative rooted, parts, if_neg (by simp)]
    by_cases none : cs = []
    · exact .inl (by rw [none, nil_append, single])
    · exact .inr ⟨Text.join "/" cs, by rw [join_append "/" none (cons_ne_nil _ _), single]⟩

/-- A cleaned path ends with a slash only if it is one. -/
theorem clean_ends (p : Text) : clean p = "/" ∨ ∃ b, (clean p).getLast? = some b ∧ b ≠ ('/' : UInt8) := by
  rcases eq_nil_or_concat (components p) with none | ⟨cs, c, parts⟩
  · cases rooted : isAbsolute p with
    | true => exact .inl (by rw [clean_of_isAbsolute rooted, none]; rfl)
    | false => exact .inr ⟨_, by rw [clean_of_relative rooted, if_pos none]; rfl, by decide⟩
  · right
    rw [concat_eq_append] at parts
    have kept : IsKept c ∧ ('/' : UInt8) ∉ c := kept_of_mem_components (p := p) (by simp [parts])
    rcases clean_eq_append parts with same | ⟨front, same⟩
    · exact same ▸ getLast?_child [] kept.1.1 kept.2
    · rw [same, ← append_assoc]
      exact getLast?_child _ kept.1.1 kept.2

theorem base_of_components (normal : clean p = p) (parts : components p = cs ++ [c]) : base p = c := by
  have kept : IsKept c ∧ ('/' : UInt8) ∉ c := kept_of_mem_components (p := p) (by simp [parts])
  rcases clean_eq_append parts with same | ⟨front, same⟩
  · rw [normal] at same
    rw [same, base_plain kept.1.1 kept.2]
  · rw [normal] at same
    rw [same, base_child front kept.1.1 kept.2]

/-- Below `..` on the stack there is nothing else. -/
theorem pairwise_foldl_push (rooted : Bool) (parts : List Text) :
    ∀ stack, stack.Pairwise (fun a b : Text => a = ".." → b = "..") →
      (parts.foldl (push rooted) stack).Pairwise fun a b : Text => a = ".." → b = ".." := by
  induction parts with
  | nil => exact fun _ sorted => sorted
  | cons part parts ih =>
    intro stack sorted
    refine ih _ ?_
    unfold push
    split
    · exact sorted
    split
    · cases stack with
      | nil => cases rooted <;> simp
      | cons top below =>
        dsimp only
        split
        · rename_i dots
          refine pairwise_cons.mpr ⟨fun b mem _ => ?_, sorted⟩
          rcases mem_cons.mp mem with rfl | deep
          · simpa using dots
          · exact (pairwise_cons.mp sorted).1 b deep (by simpa using dots)
        · exact (pairwise_cons.mp sorted).2
    · rename_i other
      exact pairwise_cons.mpr ⟨fun _ _ same => absurd same (by simpa using other), sorted⟩

/-- A cleaned path without a name at its end is the root, or leads upwards only. -/
theorem upwards_of_nameless (normal : clean p = p) (nameless : ¬ IsComponent (base p)) :
    p = "/" ∨ isAbsolute p = false ∧ ∀ c ∈ components p, c = ".." := by
  rcases eq_nil_or_concat (components p) with none | ⟨cs, c, parts⟩
  · cases rooted : isAbsolute p with
    | true => exact .inl (by rw [← normal, clean_of_isAbsolute rooted, none]; rfl)
    | false => exact .inr ⟨rfl, by simp [none]⟩
  · rw [concat_eq_append] at parts
    rw [base_of_components normal parts] at nameless
    have last : c ∈ components p := by simp [parts]
    obtain ⟨kept, plain⟩ := kept_of_mem_components last
    have dots : c = ".." := by
      by_contra other
      exact nameless ⟨kept.1, kept.2, other, plain⟩
    refine .inr ⟨?_, ?_⟩
    · cases rooted : isAbsolute p with
      | true => exact absurd (isComponent_of_mem_components rooted c last) nameless
      | false => rfl
    · have sorted := pairwise_foldl_push (isAbsolute p) (split '/' p) [] .nil
      rw [← reverse_reverse ((split '/' p).foldl _ _), ← components, parts, reverse_append,
        reverse_singleton, singleton_append] at sorted
      intro x mem
      rw [parts, mem_append, mem_singleton] at mem
      rcases mem with front | same
      · exact (pairwise_cons.mp sorted).1 x (mem_reverse.mpr front) dots
      · rw [same, dots]

theorem foldl_push_upwards (parts : List Text) (upwards : ∀ c ∈ parts, c = "..") :
    ∀ stack : List Text, (∀ c ∈ stack, c ≠ "..") → ∃ n, parts.foldl (push true) stack = stack.drop n := by
  induction parts with
  | nil => exact fun stack _ => ⟨0, rfl⟩
  | cons part parts ih =>
    intro stack plain
    obtain ⟨rfl, rest⟩ := forall_mem_cons.mp upwards
    cases stack with
    | nil => exact ih rest [] (by simp)
    | cons top below =>
      obtain ⟨named, plain⟩ := forall_mem_cons.mp plain
      obtain ⟨n, same⟩ := ih rest below plain
      refine ⟨n + 1, ?_⟩
      rw [foldl_cons, show push true (top :: below) ".." = below by simp [push, named]; decide, same, drop_succ_cons]

/-- A cleaned path that ends with a name is joined from its directory and that name. -/
theorem join_dir_base (normal : clean p = p) (named : IsComponent (base p)) : join [dir p, base p] = p := by
  have filled : p ≠ [] := normal ▸ clean_ne_nil p
  rcases exists_last_slash p with plain | ⟨x, c, rfl, plain⟩
  · rw [base_plain filled plain] at named ⊢
    rw [dir, splitLast_plain plain, show clean [] = "." from rfl, join_of_ne_nil (by decide),
      clean_child (by decide) named]
    rfl
  · by_cases none : c = []
    · rcases clean_ends (x ++ ("/" ++ c)) with slash | ⟨b, last, other⟩
      · rw [normal] at slash
        rw [slash] at named
        exact absurd (by decide) named.2.2.2
      · rw [normal, none, getLast?_append] at last
        injection last with same
        exact absurd same.symm other
    · rw [base_child x none plain] at named ⊢
      rw [dir, splitLast_child x plain]
      by_cases top : x = []
      · rw [top, show clean (([] : Text) ++ "/") = "/" from rfl, join_of_ne_nil (by decide),
          clean_child (by decide) named]
        rfl
      · rw [clean_append_slash top, join_of_ne_nil (clean_ne_nil x)]
        refine Eq.trans (clean_eq ?_ ?_) normal
        · rw [isAbsolute_child (clean_ne_nil x), isAbsolute_child top, isAbsolute_clean_eq]
        · rw [components_child (clean_ne_nil x) named, components_child top named, components_clean]

theorem dir_ne_nil (p : Text) : dir p ≠ [] := clean_ne_nil _

theorem clean_dir (p : Text) : clean (dir p) = dir p := clean_clean_eq _

/-- The directory of a path that ends with a name is another path, and a shorter one if it ends with a name too. -/
theorem dir_of_named (normal : clean p = p) (named : IsComponent (base p)) :
    dir p ≠ p ∧ (IsComponent (base (dir p)) → (dir p).length < p.length) := by
  have joined := join_dir_base normal named
  have tidy := clean_dir p
  rw [join_of_ne_nil (dir_ne_nil p), clean_child (dir_ne_nil p) named, tidy] at joined
  by_cases none : components (dir p) = []
  · have nameless : ¬ IsComponent (base (dir p)) := by
      cases rooted : isAbsolute (dir p) with
      | true =>
        rw [← tidy, clean_of_isAbsolute rooted, none]
        exact fun component => component.2.2.2 (by decide)
      | false =>
        rw [← tidy, clean_of_relative rooted, if_pos none]
        exact fun component => component.2.1 rfl
    exact ⟨fun same => nameless (by rw [same]; exact named), fun component => absurd component nameless⟩
  · rw [if_neg none] at joined
    have sizes := congrArg length joined
    rw [length_append, length_append, show (("/" : Text)).length = 1 from rfl] at sizes
    have longer : (dir p).length < p.length := by omega
    exact ⟨fun same => by rw [same] at longer; exact Nat.lt_irrefl _ longer, fun _ => longer⟩

/-- Below an absolute path a relative one leads to the same place as its cleaned form. -/
theorem clean_below {w r : Text} (filled : w ≠ []) (relative : isAbsolute r = false) :
    clean (w ++ ("/" ++ clean r)) = clean (w ++ ("/" ++ r)) := by
  refine clean_eq (by rw [isAbsolute_child filled, isAbsolute_child filled]) ?_
  rw [components_append w _ filled, components_append w _ filled, ← foldl_push_settled (isAbsolute w) (split '/' r)]
  have own : ((split '/' r).foldl (push false) []).reverse = components r := by rw [components, relative]
  rw [own, clean_of_relative relative]
  split
  · rename_i none
    rw [none]
    rfl
  · rename_i some
    rw [show Text.join "/" (components r) = Text.join [('/' : Char)] (components r) from rfl,
      split_join some fun c mem => (kept_of_mem_components mem).2]

theorem join_eq_nil_or_clean (root path : Text) : join [root, path] = [] ∨ clean (join [root, path]) = join [root, path] := by
  unfold join
  split
  · exact .inl rfl
  · exact .inr (clean_clean_eq _)

/-- A last component has no slash, unless the path is the root. -/
theorem slash_not_mem_base (other : base p ≠ "/") : ('/' : UInt8) ∉ base p := by
  unfold base at other ⊢
  split at other
  · rename_i none
    rw [if_pos none]
    decide
  · rename_i some
    rw [if_neg some]
    dsimp only at other ⊢
    split at other
    · exact absurd rfl other
    · rename_i more
      rw [if_neg more]
      rcases exists_last_slash (trimRightBytes (fun x => x == ('/' : UInt8)) p) with plain | ⟨x, c, split, plain⟩
      · rw [splitLast_plain plain]
        exact plain
      · rw [split, splitLast_child x plain]
        exact plain

end Path

namespace Text

theorem slash_not_mem_ofNat (n : Nat) : ('/' : UInt8) ∉ ofNat n := by
  intro slash
  obtain ⟨c, mem, same⟩ := mem_map.mp slash
  have digit := Nat.isDigit_of_mem_toDigits (by decide) (by decide) mem
  have range : 48 ≤ c.val.toNat ∧ c.val.toNat ≤ 57 := by
    simpa [Char.isDigit, UInt32.le_iff_toNat_le] using digit
  have value : c.val.toNat % 2 ^ 8 = 47 := congrArg UInt8.toNat same
  omega

end Text

namespace Disk

variable (d : Disk)

theorem key_of_memory (memory : d.onHost = false) (p : Text) :
    d.key p = if clean p = "." ∨ clean p = ".." then ("/" : Text) else clean p := by
  simp [key, memory]

theorem key_of_relative (host : d.onHost = true) (working : isAbsolute d.workingDirectory)
    (relative : isAbsolute p = false) : d.key p = clean (d.workingDirectory ++ ("/" ++ p)) := by
  simp [key, host, relative, join_of_isAbsolute working]

/-- The working directory of the host has an absolute path. -/
abbrev IsAnchored : Prop := d.onHost → Path.isAbsolute d.workingDirectory

/-- Below a directory a name has a place of its own. -/
theorem splitLast_key_join (working : d.IsAnchored) (filled : q ≠ []) (proper : IsComponent c) :
    ∃ front, splitLast (d.key (join [q, c])) = (front, c) ∧ d.key front = d.key q := by
  have normal : clean (join [q, c]) = join [q, c] := by
    rw [join_of_ne_nil filled, clean_clean_eq]
  obtain ⟨front, split, same⟩ := splitLast_join filled proper
  cases host : d.onHost with
  | false =>
    have named : ¬ (join [q, c] = "." ∨ join [q, c] = "..") := by
      rintro (dot | dots)
      · rw [dot] at split
        exact proper.2.1 (congrArg Prod.snd split).symm
      · rw [dots] at split
        exact proper.2.2.1 (congrArg Prod.snd split).symm
    refine ⟨front, ?_, by rw [key_of_memory d host, key_of_memory d host, same]⟩
    rw [key_of_memory d host, normal, if_neg named, split]
  | true =>
    cases absolute : isAbsolute q with
    | true =>
      have rooted : isAbsolute front := by rw [← isAbsolute_clean_eq, same, isAbsolute_clean_eq, absolute]
      refine ⟨front, ?_, by rw [d.key_of_isAbsolute rooted, d.key_of_isAbsolute absolute, same]⟩
      have own : isAbsolute (join [q, c]) := by
        rw [join_of_ne_nil filled, isAbsolute_clean_eq, isAbsolute_child filled, absolute]
      rw [d.key_of_isAbsolute own, normal, split]
    | false =>
      have relative : isAbsolute (q ++ ("/" ++ c)) = false := by rw [isAbsolute_child filled, absolute]
      have lead := working host
      have some := ne_nil_of_isAbsolute lead
      have deep : d.workingDirectory ++ (("/" : Text) ++ q) ≠ [] := by simp [some]
      have place : d.key (join [q, c]) = join [d.workingDirectory ++ ("/" ++ q), c] := by
        rw [join_of_ne_nil filled, key_of_relative d host lead (by rw [isAbsolute_clean_eq, relative]),
          clean_below some relative, join_of_ne_nil deep]
        simp
      obtain ⟨above, split, same⟩ := splitLast_join deep proper
      have rooted : isAbsolute above := by
        rw [← isAbsolute_clean_eq, same, isAbsolute_clean_eq, isAbsolute_child some, lead]
      refine ⟨above, by rw [place, split], ?_⟩
      rw [d.key_of_isAbsolute rooted, same, key_of_relative d host lead absolute]

theorem parentKey_key_join (working : d.IsAnchored) (filled : q ≠ []) (proper : IsComponent c) :
    d.parentKey (d.key (join [q, c])) = d.key q := by
  obtain ⟨front, split, same⟩ := splitLast_key_join d working filled proper
  rw [parentKey, split, same]

/-- A cleaned path is kept below the directory that it names; on the host it has to end with a name for that. -/
theorem parentKey_key (working : d.IsAnchored) (normal : clean p = p)
    (named : d.onHost → IsComponent (base p)) : d.parentKey (d.key p) = d.key (dir p) := by
  cases host : d.onHost with
  | false =>
    by_cases dots : p = "." ∨ p = ".."
    · rcases dots with rfl | rfl
      · simp [parentKey, key, host]; rfl
      · simp [parentKey, key, host]; rfl
    · rw [key_of_memory d host p, normal, if_neg dots, parentKey, key_of_memory d host, key_of_memory d host,
        dir, clean_clean_eq]
  | true =>
    have joined := parentKey_key_join d working (dir_ne_nil p) (named host)
    rwa [join_dir_base normal (named host)] at joined

end Disk

end ScriptBuild
