import ScriptBuild.Proofs.Places
import ScriptBuild.Proofs.StubRuns

/-! What exclusion rules decide, and what is left of excluded members. -/

namespace ScriptBuild

open List ExclusionRule Text

def RuleScope.rank : RuleScope → Nat
  | .wholeClass => 0
  | .field => 1
  | .member => 2

/-- Whether a rule matches an entry: rules for classes match members too, the others match only members. -/
def ExclusionRule.appliesTo (r : ExclusionRule) (e : Entry) : Bool :=
  match r.scope with
  | .wholeClass => r.className == if e.isMember then e.owner else e.name
  | .field =>
    e.isMember && (e.kind == .field || e.kind == .constant) && (r.className == e.owner && r.member == e.name)
  | .member => e.isMember && (r.className == e.owner && r.member == e.name)

namespace ExclusionPolicy

variable {rules : List ExclusionRule} {old new : ExclusionRule} {e : Entry}

def ofScope (rules : List ExclusionRule) (s : RuleScope) : List ExclusionRule := rules.filter (·.scope = s)

/-- The rules in the order in which they are tried. -/
def ranked (rules : List ExclusionRule) : List ExclusionRule := RuleScope.all.flatMap (ofScope rules)

theorem ofRules_eq (rules : List ExclusionRule) :
    ofRules rules = ⟨ofScope rules .wholeClass, ofScope rules .field, ofScope rules .member⟩ := by
  have each (p : ExclusionPolicy) : rules.foldl add p = ⟨p.classes ++ ofScope rules .wholeClass,
      p.fields ++ ofScope rules .field, p.members ++ ofScope rules .member⟩ := by
    induction rules generalizing p with
    | nil => simp [ofScope]
    | cons r rules ih =>
      rw [foldl_cons, ih]
      cases scope : r.scope <;> simp [add, ofScope, scope]
  simpa [ofRules] using each {}

theorem find?_ranked (rules : List ExclusionRule) (p : ExclusionRule → Bool) :
    (ranked rules).find? p = ((ofScope rules .wholeClass).find? p).or
      (((ofScope rules .field).find? p).or ((ofScope rules .member).find? p)) := by
  simp [ranked, RuleScope.all, find?_append]

theorem find?_ofScope {s : RuleScope} {p q : ExclusionRule → Bool} (agrees : ∀ r, r.scope = s → p r = q r) :
    (ofScope rules s).find? p = (ofScope rules s).find? q := by
  rw [ofScope, find?_filter, find?_filter]
  refine congrArg (rules.find? ·) (funext fun r => ?_)
  by_cases scope : r.scope = s
  · rw [agrees r scope]
  · simp [scope]

theorem rule?_eq_find? (rules : List ExclusionRule) (e : Entry) :
    (ofRules rules).rule? e = (ranked rules).find? (·.appliesTo e) := by
  have classes : (ofScope rules .wholeClass).find? (·.appliesTo e) =
      (ofScope rules .wholeClass).find? fun r => r.isFor (if e.isMember then e.owner else e.name) [] :=
    find?_ofScope fun r scope => by simp [appliesTo, isFor, scope]
  have fields : (ofScope rules .field).find? (·.appliesTo e) = (ofScope rules .field).find? fun r =>
      e.isMember && (e.kind == .field || e.kind == .constant) && r.isFor e.owner e.name :=
    find?_ofScope fun r scope => by rw [appliesTo, isFor, scope]; rfl
  have members : (ofScope rules .member).find? (·.appliesTo e) =
      (ofScope rules .member).find? fun r => e.isMember && r.isFor e.owner e.name :=
    find?_ofScope fun r scope => by rw [appliesTo, isFor, scope]; rfl
  have never (l : List ExclusionRule) : (l.find? fun _ => false) = none := by simp
  rw [find?_ranked, ofRules_eq, rule?, classes, fields, members]
  cases e.isMember <;> cases e.kind == .field || e.kind == .constant <;> simp [never]

/-- A rule that is added comes after all rules of its own scope and of stronger ones. -/
theorem exists_ranked_append (rules : List ExclusionRule) (new : ExclusionRule) :
    ∃ l r, ranked rules = l ++ r ∧ ranked (rules ++ [new]) = l ++ new :: r ∧
      ∀ x ∈ r, new.scope.rank < x.scope.rank := by
  cases scope : new.scope with
  | wholeClass =>
    refine ⟨ofScope rules .wholeClass, ofScope rules .field ++ ofScope rules .member, ?_⟩
    simp [ranked, RuleScope.all, ofScope, scope, RuleScope.rank]
    grind
  | field =>
    refine ⟨ofScope rules .wholeClass ++ ofScope rules .field, ofScope rules .member, ?_⟩
    simp [ranked, RuleScope.all, ofScope, scope, RuleScope.rank]
    grind
  | member => exact ⟨ranked rules, [], by simp [ranked, RuleScope.all, ofScope, scope]⟩

theorem rule?_of_class (p : ExclusionPolicy) {c : Entry} (top : c.isMember = false) (inside : e.isMember = true)
    (own : e.owner = c.name) (found : p.rule? c = some old) : p.rule? e = some old := by
  have classes : (p.classes.find? fun r => r.isFor e.owner []) = some old := by simpa [rule?, top, own] using found
  simp [rule?, inside, classes]

theorem rule?_ofRules (rules : List ExclusionRule) (e : Entry) :
    (ofRules rules).rule? e = (ranked rules).find? (·.appliesTo e) ∧
    (∀ others, (∀ s, ofScope others s = ofScope rules s) → (ofRules others).rule? e = (ofRules rules).rule? e) ∧
    (∀ new, ((ofRules rules).rule? e).isSome → ((ofRules (rules ++ [new])).rule? e).isSome) ∧
    (∀ old new : ExclusionRule, (ofRules rules).rule? e = some old → old.scope.rank ≤ new.scope.rank →
      (ofRules (rules ++ [new])).rule? e = some old) ∧
    ∀ (c : Entry) (r : ExclusionRule), c.isMember = false → e.isMember = true → e.owner = c.name →
      (ofRules rules).rule? c = some r → (ofRules rules).rule? e = some r := by
  refine ⟨rule?_eq_find? rules e, fun others same => ?_, fun new found => ?_, fun old new found weaker => ?_,
    fun c r top inside own => rule?_of_class _ top inside own⟩
  all_goals rw [rule?_eq_find?] at *
  · rw [rule?_eq_find?, ranked, funext same, ranked]
  · obtain ⟨l, r, before, after, -⟩ := exists_ranked_append rules new
    rw [before, find?_isSome] at found
    rw [after, find?_isSome]
    obtain ⟨x, member, applies⟩ := found
    exact ⟨x, by grind, applies⟩
  · obtain ⟨l, r, before, after, later⟩ := exists_ranked_append rules new
    rw [before, find?_append] at found
    rw [after, find?_append]
    cases first : l.find? (·.appliesTo e) with
    | some x => simpa [first] using found
    | none =>
      rw [first, Option.none_or] at found
      exact absurd (later old (mem_of_find?_eq_some found)) (by omega)

/-- A rule for a class decides for its members, whatever the rules for them and whenever they were added. -/
theorem rule?_ofRules_hidden :
    (ofRules [⟨.member, "A", "f", []⟩, ⟨.wholeClass, "A", [], "old"⟩, ⟨.field, "A", "f", []⟩]).rule?
      { kind := .field, owner := "A", name := "f" } = some ⟨.wholeClass, "A", [], "old"⟩ :=
  (rule?_ofRules [⟨.member, "A", "f", []⟩, ⟨.wholeClass, "A", [], "old"⟩] _).2.2.2.1 _ ⟨.field, "A", "f", []⟩
    ((rule?_ofRules [⟨.member, "A", "f", []⟩, ⟨.wholeClass, "A", [], "old"⟩] _).2.2.2.2
      { kind := .classType, name := "A" } _ rfl rfl rfl (by decide)) (by decide)

end ExclusionPolicy

namespace Text

/-- Every line of a text is a comment. -/
def IsCommentedOut (s : Text) : Prop := ∀ line ∈ split '\n' s, ("//" : Text) <+: line

theorem split_append_left {sep : UInt8} {s : Text} (plain : sep ∉ s) (t : Text) :
    split sep (s ++ t) = (s ++ (split sep t).headD []) :: (split sep t).tail := by
  induction s with
  | nil =>
    obtain ⟨part, parts, cut⟩ := exists_cons_of_ne_nil (split_ne_nil sep t)
    rw [nil_append, cut]
    rfl
  | cons b s ih =>
    rw [mem_cons, not_or] at plain
    simp [split, ih plain.2, Ne.symm plain.1]

theorem unlines_split (s : Text) : unlines (split '\n' s) = s ++ "\n" := by
  induction s with
  | nil => rfl
  | cons c s ih =>
    obtain ⟨part, parts, cut⟩ := exists_cons_of_ne_nil (split_ne_nil '\n' s)
    rw [split, cut]
    rw [cut] at ih
    split
    next broken => rw [eq_of_beq broken, cons_append, ← ih]; rfl
    next => simpa [unlines] using ih

end Text

namespace StubText

variable {policy : ExclusionPolicy} {e : Entry} {rule : ExclusionRule}

theorem split_placeholder (rule : ExclusionRule) (declaration : Text) :
    split '\n' (placeholder (some rule) declaration) = (if rule.description.isEmpty then []
        else ("// " ++ (split '\n' rule.description).headD []) :: (split '\n' rule.description).tail) ++
      ("//" ++ (split '\n' declaration).headD []) :: (split '\n' declaration).tail := by
  have last := @split_append_left '\n' "//" (by decide) declaration
  unfold placeholder
  by_cases silent : rule.description.isEmpty
  · simpa [silent] using last
  · have first := @split_append_left '\n' "// " (by decide) rule.description
    have both := split_append '\n' ("// " ++ rule.description) ("//" ++ declaration)
    rw [first, last] at both
    simp only [Option.map_some, Option.getD_some, silent]
    exact (congrArg _ (by simp; rfl)).trans both

/-- The first lines of the reason and of the declaration are commented out, what comes after them is not. -/
theorem isCommentedOut_placeholder_iff (excluded : policy.rule? e = some rule) (inInterface : Bool) :
    let text := placeholder (policy.rule? e) (member e inInterface)
    (text.IsCommentedOut ↔ ∀ line ∈ (split '\n' rule.description).tail ++
      (split '\n' (member e inInterface)).tail, ("//" : Text) <+: line) ∧
    ∀ b, classMember policy inInterface b e = b.lines (split '\n' text) := by
  dsimp only
  constructor
  · have first (s : Text) : ("//" : Text) <+: "// " ++ s := ⟨" " ++ s, rfl⟩
    have last (s : Text) : ("//" : Text) <+: "//" ++ s := prefix_append _ s
    rw [excluded, Text.IsCommentedOut, split_placeholder]
    split
    next silent => simp [isEmpty_iff.1 silent, split, last]
    next => simp [or_imp, forall_and, first, last]
  · intro b
    rw [Buffer.lines_eq_write, unlines_split, classMember, excluded]
    rfl

theorem isCommentedOut_placeholder_slow : (placeholder (some ⟨.member, "A", "f", "slow"⟩)
      (member { kind := .method, owner := "A", name := "f" } false)).IsCommentedOut :=
  (@isCommentedOut_placeholder_iff (.ofRules [⟨.member, "A", "f", "slow"⟩])
    { kind := .method, owner := "A", name := "f" } ⟨.member, "A", "f", "slow"⟩ (by decide) false).1.2 (by decide)

/-- A reason of two lines, as the configuration takes it. -/
theorem isCommentedOut_placeholder_broken :
    StubConfig.rules { root := "/as", rules := [⟨"member", "A", "f", "one\ntwo"⟩] } =
      .ok [⟨.member, "A", "f", "one\ntwo"⟩] ∧
    ¬(placeholder (some ⟨.member, "A", "f", "one\ntwo"⟩)
      (member { kind := .method, owner := "A", name := "f", params := [{ name := "x" }] } false)).IsCommentedOut :=
  ⟨rfl, fun all => absurd (all "two" (by decide)) (by decide)⟩

end StubText

end ScriptBuild
