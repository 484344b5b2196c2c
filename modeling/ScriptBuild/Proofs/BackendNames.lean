import ScriptBuild.Proofs.EmissionParts
import ScriptBuild.Proofs.FunctionLines
import ScriptBuild.Proofs.Phrases

/-! Names in both backends. -/

namespace ScriptBuild

open List JavaScript Buffer Expr

theorem lookup_map_snd {β γ : Type} (f : β → γ) (name : Text) (xs : List (Text × β)) :
    (xs.map fun x => (x.1, f x.2)).lookup name = (xs.lookup name).map f := by
  induction xs with
  | nil => rfl
  | cons x xs ih =>
    rw [map_cons, lookup_cons, lookup_cons, ih]
    split <;> rfl

/-- What a bare name stands for. -/
inductive Meaning where
  /-- A parameter, or a local variable that was declared before. -/
  | declared
  | ofInstance
  | ofClass
  | outside
  deriving DecidableEq

namespace Meaning

def isMember : Meaning → Bool
  | .ofInstance | .ofClass => true
  | .declared | .outside => false

/-- How a name with a meaning is written, `self` being the class. -/
def text (self name : Text) : Meaning → Text
  | .ofInstance => "this" ++ "." ++ name
  | .ofClass => self ++ "." ++ name
  | .declared | .outside => name

end Meaning

namespace Class

variable (k : Class)

/-- The members, each with whether it belongs to the class rather than to an instance. -/
def accesses : List (Text × Bool) :=
  k.members.filterMap fun m =>
    if k.isConstructor m then none
    else
      some (m.name,
        match m with
        | .function f => f.isStatic
        | .variable v => v.isStatic)

/-- What a name stands for where some names are declared; of members with the same name the last one counts. -/
def meaning (declared : List Text) (name : Text) : Meaning :=
  if declared.contains name then .declared
  else
    match k.accesses.reverse.lookup name with
    | some true => .ofClass
    | some false => .ofInstance
    | none => .outside

def hasMember (name : Text) : Bool := (k.accesses.reverse.lookup name).isSome

theorem qualifiers_eq (self : Text) :
    k.qualifiers self = k.accesses.map fun access => (access.1, if access.2 then self else ("this" : Text)) := by
  rw [accesses, map_filterMap]
  refine congrArg (filterMap · k.members) (funext fun m => ?_)
  split <;> rfl

theorem name_scope (self : Text) (declared : List Text) (name : Text) :
    Scope.name { members := k.qualifiers self, locals := declared } name =
      (k.meaning declared name).text self name := by
  unfold Scope.name meaning
  by_cases own : declared.contains name
  · rw [if_pos own, if_pos own]
    rfl
  · rw [if_neg own, if_neg own]
    rw [qualifiers_eq, ← map_reverse, lookup_map_snd fun isShared : Bool => if isShared then self else "this"]
    cases k.accesses.reverse.lookup name with
    | none => rfl
    | some isShared => cases isShared <;> rfl

end Class

/-- Source code in the target languages, with its names by their meanings. -/
inductive Fragment where
  | text (s : Text)
  | indent
  | dedent
  | name (n : Text) (meaning : Meaning)
  | declaration (v : Variable)
  | type (t : Text)

namespace Fragment

def line (s : Text) : Fragment := .text (s ++ "\n")

def run (style : ScriptStyle) (self : Text) (b : Buffer) : Fragment → Buffer
  | .text s => b.write s
  | .indent => b.indent
  | .dedent => b.dedent
  | .name n meaning => b.write (meaning.text self n)
  | .declaration v => b.write (style.declareLocal v)
  | .type t => b.write (style.createdType t)

def runAll (style : ScriptStyle) (self : Text) (b : Buffer) (fragments : List Fragment) : Buffer :=
  fragments.foldl (run style self) b

def names (fragments : List Fragment) : List (Text × Meaning) :=
  fragments.filterMap fun
    | .name n meaning => some (n, meaning)
    | _ => none

@[simp] theorem names_append (xs ys : List Fragment) : names (xs ++ ys) = names xs ++ names ys := filterMap_append

@[simp] theorem names_nil : names [] = [] := rfl

@[simp] theorem names_text (s : Text) (xs : List Fragment) : names (.text s :: xs) = names xs := rfl

@[simp] theorem names_type (t : Text) (xs : List Fragment) : names (.type t :: xs) = names xs := rfl

section Run

variable (style : ScriptStyle) (self : Text) (b : Buffer)

@[simp] theorem runAll_nil : runAll style self b [] = b := rfl

@[simp] theorem runAll_cons (x : Fragment) (xs : List Fragment) :
    runAll style self b (x :: xs) = runAll style self (x.run style self b) xs := rfl

@[simp] theorem run_text (s : Text) : (text s).run style self b = b.write s := rfl

@[simp] theorem run_line (s : Text) : (line s).run style self b = b.line s := rfl

@[simp] theorem run_indent : indent.run style self b = b.indent := rfl

@[simp] theorem run_dedent : dedent.run style self b = b.dedent := rfl

@[simp] theorem run_declaration (v : Variable) :
    (declaration v).run style self b = b.write (style.declareLocal v) := rfl

@[simp] theorem runAll_append (xs ys : List Fragment) :
    runAll style self b (xs ++ ys) = runAll style self (runAll style self b xs) ys := foldl_append

end Run

def grouped (b : Bool) (xs : List Fragment) : List Fragment := if b then .text "(" :: xs ++ [.text ")"] else xs

theorem runAll_grouped (style : ScriptStyle) (self : Text) {xs : List Fragment} {s : Text}
    (written : ∀ b, runAll style self b xs = b.write s) (needed : Bool) (b : Buffer) :
    runAll style self b (grouped needed xs) = b.write (inParens needed s) := by
  cases needed with
  | false => exact written b
  | true => simp [grouped, inParens, written, write_append]

@[simp] theorem names_grouped (b : Bool) (xs : List Fragment) : names (grouped b xs) = names xs := by
  cases b <;> simp [grouped]

end Fragment

namespace Expr

mutual

def fragments (meaning : Text → Meaning) : Expr → List Fragment
  | .ident _ name => [.name name (meaning name)]
  | .literal _ kind value => [.text (if kind == .string then Text.quote value else value)]
  | .binary _ op x y =>
    Fragment.grouped (needsParens op.precedence op.groupsRight x) (fragments meaning x) ++
      .text (" " ++ op.scriptText ++ " ") ::
        Fragment.grouped (needsParens op.precedence (!op.groupsRight) y) (fragments meaning y)
  | .unary _ op x => .text op.text :: Fragment.grouped (isBinary x) (fragments meaning x)
  | .call _ f args => fragments meaning f ++ .text "(" :: argFragments meaning args ++ [.text ")"]
  | .member _ x name => fragments meaning x ++ [.text ("." ++ name)]
  | .create _ type args => .text "new " :: .type type :: .text "(" :: argFragments meaning args ++ [.text ")"]

def argFragments (meaning : Text → Meaning) : List Expr → List Fragment
  | [] => []
  | [x] => fragments meaning x
  | x :: y :: xs => fragments meaning x ++ .text ", " :: argFragments meaning (y :: xs)

end

mutual

def names : Expr → List Text
  | .ident _ name => [name]
  | .literal _ _ _ => []
  | .binary _ _ x y => names x ++ names y
  | .unary _ _ x => names x
  | .call _ f args => names f ++ argNames args
  | .member _ x _ => names x
  | .create _ _ args => argNames args

def argNames : List Expr → List Text
  | [] => []
  | x :: xs => names x ++ argNames xs

end

section Written

variable (k : Class) (style : ScriptStyle) (self : Text) (declared : List Text)

theorem runAll_argFragments {args : List Expr}
    (each : ∀ a ∈ args, ∀ b, Fragment.runAll style self b (a.fragments (k.meaning declared)) =
      b.write (a.script style { members := k.qualifiers self, locals := declared })) (b : Buffer) :
    Fragment.runAll style self b (argFragments (k.meaning declared) args) =
      b.write (scriptArgs style { members := k.qualifiers self, locals := declared } args) := by
  induction args generalizing b with
  | nil => rfl
  | cons x xs ih =>
    obtain ⟨first, rest⟩ := forall_mem_cons.mp each
    have others := ih rest
    cases xs with
    | nil => exact first b
    | cons y ys =>
      have text : scriptArgs style { members := k.qualifiers self, locals := declared } (x :: y :: ys) =
          x.script style { members := k.qualifiers self, locals := declared } ++ ", " ++
            scriptArgs style { members := k.qualifiers self, locals := declared } (y :: ys) := rfl
      rw [argFragments, Fragment.runAll_append, first, Fragment.runAll_cons, others, text]
      simp only [write_append, Fragment.run]

theorem runAll_fragments (x : Expr) : ∀ b, Fragment.runAll style self b (x.fragments (k.meaning declared)) =
    b.write (x.script style { members := k.qualifiers self, locals := declared }) := by
  induction x using nodeInduction with
  | ident line name =>
    intro b
    rw [script, k.name_scope]
    rfl
  | literal line kind value => exact fun b => rfl
  | binary line op x y left right =>
    intro b
    rw [script, fragments, Fragment.runAll_append, Fragment.runAll_grouped style self left, Fragment.runAll_cons,
      Fragment.runAll_grouped style self right]
    simp only [write_append, Fragment.run]
  | unary line op x operand =>
    intro b
    rw [script, fragments, Fragment.runAll_cons, Fragment.runAll_grouped style self operand, write_append]
    rfl
  | call line f args callee each =>
    intro b
    rw [script, fragments]
    simp only [Fragment.runAll_append, Fragment.runAll_cons, Fragment.runAll_nil, callee,
      runAll_argFragments k style self declared each, write_append, Fragment.run]
  | member line x name base =>
    intro b
    rw [script, fragments, Fragment.runAll_append, base, append_assoc, write_append]
    rfl
  | create line type args each =>
    intro b
    rw [script, fragments]
    simp only [Fragment.runAll_append, Fragment.runAll_cons, Fragment.runAll_nil,
      runAll_argFragments k style self declared each, write_append, Fragment.run]

end Written

section Names

variable (meaning : Text → Meaning)

theorem names_argFragments {args : List Expr}
    (each : ∀ a ∈ args, Fragment.names (a.fragments meaning) = a.names.map fun n => (n, meaning n)) :
    Fragment.names (argFragments meaning args) = (argNames args).map fun n => (n, meaning n) := by
  induction args with
  | nil => rfl
  | cons x xs ih =>
    obtain ⟨first, rest⟩ := forall_mem_cons.mp each
    have others := ih rest
    rw [argNames, map_append, ← first, ← others]
    cases xs with
    | nil | cons y ys => simp [argFragments]

theorem names_fragments (x : Expr) : Fragment.names (x.fragments meaning) = x.names.map fun n => (n, meaning n) := by
  induction x using nodeInduction with
  | ident line name | literal line kind value => rfl
  | binary line op x y left right => simp [names, fragments, left, right]
  | unary line op x operand => simp [names, fragments, operand]
  | call line f args callee each => simp [names, fragments, callee, names_argFragments meaning each]
  | member line x name base => simp [names, fragments, base]
  | create line type args each => simp [names, fragments, names_argFragments meaning each]

end Names

end Expr

namespace Statement

variable (k : Class)

mutual

def fragments : Statement → List Text → List Fragment × List Text
  | .variable _ v, declared =>
    let init :=
      match v.init with
      | some x => .text " = " :: x.fragments (k.meaning declared)
      | none => []
    (.declaration v :: init ++ [.line ";"], v.name :: declared)
  | .expression _ x, declared => (x.fragments (k.meaning declared) ++ [.line ";"], declared)
  | .result _ none, declared => ([.line "return;"], declared)
  | .result _ (some x), declared => (.text "return " :: x.fragments (k.meaning declared) ++ [.line ";"], declared)
  | .ifThen _ condition yes, declared =>
    let inside := allFragments yes declared
    (.text "if (" :: condition.fragments (k.meaning declared) ++ [.line ") \x7b", .indent] ++ inside.1 ++
      [.dedent, .line "\x7d"], inside.2)
  | .ifThenElse _ condition yes no, declared =>
    let first := allFragments yes declared
    let second := allFragments no first.2
    (.text "if (" :: condition.fragments (k.meaning declared) ++ [.line ") \x7b", .indent] ++ first.1 ++
      [.dedent, .line "\x7d else \x7b", .indent] ++ second.1 ++ [.dedent, .line "\x7d"], second.2)
  | .loop _ condition body, declared =>
    let inside := allFragments body declared
    (.text "while (" :: condition.fragments (k.meaning declared) ++ [.line ") \x7b", .indent] ++ inside.1 ++
      [.dedent, .line "\x7d"], inside.2)

def allFragments : List Statement → List Text → List Fragment × List Text
  | [], declared => ([], declared)
  | x :: xs, declared =>
    let first := fragments x declared
    let rest := allFragments xs first.2
    (first.1 ++ rest.1, rest.2)

end

variable (style : ScriptStyle) (self : Text)

mutual

theorem emit_eq : ∀ (x : Statement) (declared : List Text) (b : Buffer),
    emit style x ({ members := k.qualifiers self, locals := declared }, b) =
      ({ members := k.qualifiers self, locals := (x.fragments k declared).2 },
        Fragment.runAll style self b (x.fragments k declared).1)
  | .variable _ v, declared, b => by
    cases given : v.init <;>
      simp [emit, fragments, given, runAll_fragments, Scope.declare, line, write_append]
  | .expression _ x, declared, b => by
    simp [emit, fragments, runAll_fragments, line, write_append]
  | .result _ none, declared, b => rfl
  | .result _ (some x), declared, b => by
    simp [emit, fragments, runAll_fragments, line, write_append]
  | .ifThen _ condition yes, declared, b => by
    rw [emit, emitAll_eq yes declared]
    simp [fragments, runAll_fragments, line, write_append]
  | .ifThenElse _ condition yes no, declared, b => by
    rw [emit, emitAll_eq yes declared]
    dsimp only
    rw [emitAll_eq no]
    simp [fragments, runAll_fragments, line, write_append]
  | .loop _ condition body, declared, b => by
    rw [emit, emitAll_eq body declared]
    simp [fragments, runAll_fragments, line, write_append]

theorem emitAll_eq : ∀ (xs : List Statement) (declared : List Text) (b : Buffer),
    emitAll style xs ({ members := k.qualifiers self, locals := declared }, b) =
      ({ members := k.qualifiers self, locals := (allFragments k xs declared).2 },
        Fragment.runAll style self b (allFragments k xs declared).1)
  | [], declared, b => rfl
  | x :: xs, declared, b => by
    rw [emitAll, emit_eq x declared b, emitAll_eq xs _ _, allFragments, Fragment.runAll_append]

end

end Statement

namespace Site

variable (k : Class) (statements : Function → List Statement)

def fragments (declared : List Text) : Site → List Fragment
  | .initial v => (v.init.map fun x => x.fragments (k.meaning declared)).getD []
  | .default _ p => (p.default.map fun x => x.fragments (k.meaning declared)).getD []
  | .body f => (Statement.allFragments k (statements f) declared).1

theorem run_code (style : ScriptStyle) (self : Text) (declared : List Text) (site : Site) (b : Buffer) :
    (Part.code site { members := k.qualifiers self, locals := declared }).run style statements b =
      Fragment.runAll style self b (site.fragments k statements declared) := by
  cases site with
  | initial v => cases given : v.init <;> simp [fragments, given, runAll_fragments, write]
  | default f p => cases given : p.default <;> simp [fragments, given, runAll_fragments, write]
  | body f => rw [Part.run_body, Statement.emitBody, Statement.emitAll_eq, fragments]

def declared : Site → List Text
  | .initial _ => []
  | .default f _ | .body f => f.params.map (·.name)

/-- Whether a name at a site outside of the constructor stands for a parameter of the constructor. -/
def IsCaptured (name : Text) : Site → Prop
  | .initial v => v.isStatic = false ∧ name ∈ (constructorParams k).map (·.name)
  | .default _ _ | .body _ => False

/-- The names that are declared at a site where the initial values of fields are assigned in the constructor. -/
def declaredIn : Site → List Text
  | .initial v => if v.isStatic then [] else (constructorParams k).map (·.name)
  | .default f _ | .body f => f.params.map (·.name)

end Site

namespace Class

variable (k : Class)

theorem variable_mem_ordinaryMembers {v : Variable} : .variable v ∈ k.ordinaryMembers ↔ .variable v ∈ k.members := by
  have other : .variable v ∉ (k.constructor?.map Member.function).toList := by simp
  rw [← k.perm_members.mem_iff, mem_append, or_iff_right other]

end Class

open Option

variable {v : Variable} {site : Site} {f : Function} {scope : Scope} {c : EmitContext}

namespace Class

variable (k : Class)

def sites : List Site :=
  (k.members.filterMap Member.variable?).flatMap Variable.sites ++
    (Decl.classDecl k).emittedFunctions.flatMap Function.sites

theorem mem_variables : v ∈ k.members.filterMap Member.variable? ↔ .variable v ∈ k.members := by
  rw [mem_filterMap]
  constructor
  · rintro ⟨m, mem, same⟩
    rcases m with f | u
    · cases same
    · cases same
      exact mem
  · exact fun mem => ⟨_, mem, rfl⟩

theorem mem_sites : site ∈ k.sites ↔ (∃ v, .variable v ∈ k.members ∧ site ∈ v.sites) ∨
      ∃ f, (k.constructor? = some f ∨ .function f ∈ k.ordinaryMembers) ∧ site ∈ f.sites := by
  have functions : ∀ f, f ∈ (Decl.classDecl k).emittedFunctions ↔
      k.constructor? = some f ∨ .function f ∈ k.ordinaryMembers := by
    intro f
    rw [Decl.emittedFunctions, mem_append, mem_toList, mem_filterMap]
    refine or_congr Iff.rfl ⟨?_, fun mem => ⟨_, mem, rfl⟩⟩
    rintro ⟨m, mem, same⟩
    rcases m with g | v
    · cases same
      exact mem
    · cases same
  simp only [sites, mem_append, mem_flatMap, mem_variables, functions]

end Class

theorem Function.eq_of_mem_sites (mem : site ∈ f.sites) : (∃ p, site = .default f p) ∨ site = .body f := by
  rcases mem_append.mp mem with value | last
  · obtain ⟨p, _, same⟩ := mem_map.mp value
    exact .inl ⟨p, same.symm⟩
  · exact .inr (mem_singleton.mp last)

theorem Function.declared_of_mem (mem : site ∈ f.sites) : site.declared = f.params.map (·.name) := by
  rcases eq_of_mem_sites mem with ⟨p, rfl⟩ | rfl <;> rfl

theorem Function.declaredIn_of_mem (k : Class) (mem : site ∈ f.sites) :
    site.declaredIn k = f.params.map (·.name) := by
  rcases eq_of_mem_sites mem with ⟨p, rfl⟩ | rfl <;> rfl

theorem Site.mem_map_within {sites : List Site} {own : Scope} :
    (site, scope) ∈ sites.map (within own) ↔ site ∈ sites ∧ scope = own := by
  rw [List.mem_map]
  constructor
  · rintro ⟨s, mem, same⟩
    injection same with first second
    exact ⟨first ▸ mem, second.symm⟩
  · rintro ⟨mem, rfl⟩
    exact ⟨site, mem, rfl⟩

namespace TypeScript

theorem mem_sites_classParts {k : Class} : (site, scope) ∈ Part.sites (classParts c k) ↔
      site ∈ k.sites ∧ scope = { members := k.qualifiers k.name, locals := site.declared } := by
  rw [sites_classParts, Class.sites, mem_append, mem_append, or_and_right, Site.mem_map_within,
    mem_flatMap, mem_flatMap, mem_flatMap]
  refine or_congr (and_congr_right fun ⟨v, _, mem⟩ => ?_) ?_
  · rw [(Variable.mem_sites.mp mem).2]
    rfl
  · constructor
    · rintro ⟨f, function, inside⟩
      obtain ⟨mem, rfl⟩ := Site.mem_map_within.mp inside
      exact ⟨⟨f, function, mem⟩, by rw [Function.declared_of_mem mem]; rfl⟩
    · rintro ⟨⟨f, function, mem⟩, rfl⟩
      exact ⟨f, function, Site.mem_map_within.mpr ⟨mem, by rw [Function.declared_of_mem mem]; rfl⟩⟩

end TypeScript

namespace JavaScript

variable {package : Text} {k : Class}

theorem constructorScope_eq (package : Text) (k : Class) : constructorScope package k =
      { members := k.qualifiers (joinName package k.name), locals := (constructorParams k).map (·.name) } := rfl

theorem mem_instanceFields : v ∈ instanceFields k ↔ .variable v ∈ k.members ∧ v.isStatic = false := by
  rw [instanceFields, mem_filter, k.mem_variables, Bool.not_eq_true']

theorem mem_sites_classParts : (site, scope) ∈ Part.sites (classParts c package k) ↔ site ∈ k.sites ∧
      scope = { members := k.qualifiers (joinName package k.name), locals := site.declaredIn k } := by
  have params : ∀ {f}, k.constructor? = some f → constructorParams k = f.params := by
    intro f constructs
    rw [constructorParams, constructs]
    rfl
  rw [sites_classParts, mem_append, Site.mem_map_within, mem_append, mem_append, mem_flatMap,
    mem_flatMap, List.mem_map, mem_flatMap, k.mem_sites]
  constructor
  · rintro (⟨(⟨f, constructs, value⟩ | ⟨v, field, value⟩) | ⟨f, constructs, rfl⟩, rfl⟩ | ⟨m, mem, inside⟩)
    · have constructs := mem_toList.mp constructs
      have own : site ∈ f.sites := mem_append_left _ value
      exact ⟨.inr ⟨f, .inl constructs, own⟩,
        by rw [constructorScope_eq, params constructs, Function.declaredIn_of_mem k own]⟩
    · obtain ⟨inside, plain⟩ := mem_instanceFields.mp field
      refine ⟨.inl ⟨v, inside, value⟩, ?_⟩
      rw [(Variable.mem_sites.mp value).2, Site.declaredIn, plain]
      rfl
    · have constructs := mem_toList.mp constructs
      have own : .body f ∈ f.sites := mem_append_right _ (mem_singleton_self _)
      exact ⟨.inr ⟨f, .inl constructs, own⟩,
        by rw [constructorScope_eq, params constructs, Function.declaredIn_of_mem k own]⟩
    · obtain ⟨ordinary, other⟩ := mem_filter.mp mem
      rcases m with f | v
      · obtain ⟨own, rfl⟩ := Site.mem_map_within.mp inside
        exact ⟨.inr ⟨f, .inr ordinary, own⟩, by rw [Function.declaredIn_of_mem k own]; rfl⟩
      · obtain ⟨own, rfl⟩ := Site.mem_map_within.mp inside
        have shared : v.isStatic := by simpa [isInstanceField] using other
        refine ⟨.inl ⟨v, k.variable_mem_ordinaryMembers.mp ordinary, own⟩, ?_⟩
        rw [(Variable.mem_sites.mp own).2, Site.declaredIn, if_pos shared]
  · rintro ⟨⟨v, inside, own⟩ | ⟨f, constructs | ordinary, own⟩, rfl⟩
    · obtain ⟨given, rfl⟩ := Variable.mem_sites.mp own
      cases shared : v.isStatic with
      | false =>
        refine .inl ⟨.inl (.inr ⟨v, mem_instanceFields.mpr ⟨inside, shared⟩, own⟩), ?_⟩
        rw [Site.declaredIn, shared]
        rfl
      | true =>
        refine .inr ⟨.variable v, mem_filter.mpr ⟨k.variable_mem_ordinaryMembers.mpr inside, ?_⟩, ?_⟩
        · simp [isInstanceField, shared]
        · exact Site.mem_map_within.mpr ⟨own, by rw [Site.declaredIn, if_pos shared]⟩
    · refine .inl ⟨?_, by rw [constructorScope_eq, params constructs, Function.declaredIn_of_mem k own]⟩
      rcases mem_append.mp own with value | last
      · exact .inl (.inl ⟨f, mem_toList.mpr constructs, value⟩)
      · exact .inr ⟨f, mem_toList.mpr constructs, (mem_singleton.mp last).symm⟩
    · refine .inr ⟨.function f, mem_filter.mpr ⟨ordinary, rfl⟩, ?_⟩
      exact Site.mem_map_within.mpr ⟨own, by rw [Function.declaredIn_of_mem k own]; rfl⟩

end JavaScript

namespace Part

/-- Parts that make up the text of a class, with its source code in fragments. -/
structure Writes (k : Class) (style : ScriptStyle) (self : Text) (statements : Function → List Statement)
    (parts : List Part) (text : Buffer → Buffer) : Prop where
  text : ∀ b, runAll style statements b parts = text b
  code : ∀ site scope, (site, scope) ∈ sites parts → ∀ b, (code site scope).run style statements b =
      Fragment.runAll style self b (site.fragments k statements scope.locals)

/-- The name at a position among the names at a site, with its meaning there. -/
def Reads (k : Class) (statements : Function → List Statement) (parts : List Part) (site : Site) (i : Nat) (name : Text)
    (meaning : Meaning) : Prop :=
  ∃ scope, (site, scope) ∈ sites parts ∧
    (Fragment.names (site.fragments k statements scope.locals))[i]? = some (name, meaning)

end Part

namespace Site

variable (k : Class) (statements : Function → List Statement) {i : Nat} {name : Text} {m m' : Meaning}

theorem names_initial (v : Variable) (declared : List Text) :
    Fragment.names (fragments k statements declared (.initial v)) =
      ((v.init.map names).getD []).map fun n => (n, k.meaning declared n) := by
  cases given : v.init <;> simp [fragments, given, names_fragments]

/-- Unless it is the initial value of a field, the same names are declared at a site in both backends. -/
theorem declaredIn_eq (plain : ∀ v, site = .initial v → v.isStatic) : site.declaredIn k = site.declared := by
  cases site with
  | initial v => exact if_pos (plain v rfl)
  | default f p | body f => rfl

end Site

theorem Class.meaning_nil (k : Class) (name : Text) :
    k.meaning [] name ≠ .declared ∧ (k.meaning [] name).isMember = k.hasMember name := by
  unfold meaning hasMember
  cases k.accesses.reverse.lookup name with
  | none => exact ⟨nofun, rfl⟩
  | some isShared => cases isShared <;> exact ⟨nofun, rfl⟩

theorem Class.meaning_eq_iff (k : Class) (declared : List Text) (name : Text) :
    ((k.meaning declared name).isMember = (k.meaning [] name).isMember ↔ ¬ (name ∈ declared ∧ k.hasMember name)) ∧
      (k.meaning declared name = k.meaning [] name ↔ name ∉ declared) := by
  obtain ⟨free, mem⟩ := k.meaning_nil name
  by_cases own : name ∈ declared
  · have here : k.meaning declared name = .declared := if_pos (by simpa using own)
    rw [here, mem]
    refine ⟨?_, ⟨fun same => absurd same.symm free, fun other => absurd own other⟩⟩
    cases k.hasMember name <;> simp [own, Meaning.isMember]
  · have same : k.meaning declared name = k.meaning [] name := by simp [meaning, own]
    simp [same, own]

/-- At a site of a class the same names are written in both backends, and their meanings differ where a parameter of
the constructor is declared. -/
theorem Site.agree (k : Class) (statements : Function → List Statement) (site : Site) (i : Nat) (name : Text) :
    let script := Fragment.names (site.fragments k statements (site.declaredIn k))
    let module := Fragment.names (site.fragments k statements site.declared)
    ((∃ m, script[i]? = some (name, m)) ↔ ∃ m, module[i]? = some (name, m)) ∧
      ∀ m m', script[i]? = some (name, m) → module[i]? = some (name, m') →
        (m.isMember = m'.isMember ↔ ¬ (site.IsCaptured k name ∧ k.hasMember name)) ∧
        (m = m' ↔ ¬ site.IsCaptured k name) := by
  by_cases field : ∃ v, site = .initial v ∧ v.isStatic = false
  · obtain ⟨v, rfl, plain⟩ := field
    have params : declaredIn k (.initial v) = (constructorParams k).map (·.name) := by
      rw [declaredIn, plain]
      rfl
    have captured : IsCaptured k name (.initial v) ↔ name ∈ (constructorParams k).map (·.name) :=
      and_iff_right plain
    rw [names_initial, names_initial, params, captured]
    dsimp only [declared]
    rw [getElem?_map, getElem?_map]
    cases ((v.init.map names).getD [])[i]? with
    | none => simp
    | some n =>
      refine ⟨by simp, fun m m' first second => ?_⟩
      injection first with first
      injection second with second
      injection first with same first
      injection second with _ second
      subst same
      rw [← first, ← second]
      exact k.meaning_eq_iff _ n
  · have shared : ∀ v, site = .initial v → v.isStatic := by
      intro v same
      cases plain : v.isStatic with
      | true => rfl
      | false => exact absurd ⟨v, same, plain⟩ field
    have free : ¬ site.IsCaptured k name := by
      cases site with
      | initial v => exact fun captured => field ⟨v, rfl, captured.1⟩
      | default f p | body f => exact id
    rw [declaredIn_eq k shared]
    refine ⟨Iff.rfl, fun m m' first second => ?_⟩
    rw [first] at second
    injection second with second
    injection second with _ second
    simp [second, free]

section Reading

variable {k : Class} {statements : Function → List Statement} {i : Nat} {name : Text} {m : Meaning}

/-- If the parts have the sites of a class, with the names that are declared there, these are the names that are read. -/
theorem Part.reads_iff {parts : List Part} {members : List (Text × Text)} {declared : Site → List Text}
    (inside : ∀ site scope, (site, scope) ∈ sites parts ↔
      site ∈ k.sites ∧ scope = { members, locals := declared site }) :
    Reads k statements parts site i name m ↔
      site ∈ k.sites ∧ (Fragment.names (site.fragments k statements (declared site)))[i]? = some (name, m) := by
  constructor
  · rintro ⟨scope, mem, here⟩
    obtain ⟨own, rfl⟩ := (inside site scope).mp mem
    exact ⟨own, here⟩
  · rintro ⟨own, here⟩
    exact ⟨_, (inside site _).mpr ⟨own, rfl⟩, here⟩

theorem JavaScript.reads_iff {package : Text} : Part.Reads k statements (classParts c package k) site i name m ↔
      site ∈ k.sites ∧ (Fragment.names (site.fragments k statements (site.declaredIn k)))[i]? = some (name, m) :=
  Part.reads_iff fun _ _ => mem_sites_classParts

theorem TypeScript.reads_iff : Part.Reads k statements (classParts c k) site i name m ↔
      site ∈ k.sites ∧ (Fragment.names (site.fragments k statements site.declared))[i]? = some (name, m) :=
  Part.reads_iff fun _ _ => mem_sites_classParts

end Reading

/-- Both backends write the same names at the same sites of a class, with the same meaning if and only if the name does
not stand for a parameter of the constructor in the initial value of a field. -/
theorem meaning_eq_iff_not_isCaptured (c : EmitContext) (other : Settings) (package : Text) (k : Class) :
    let script := classParts c package k
    let module := TypeScript.classParts { c with settings := other } k
    Part.Writes k (style c) (joinName package k.name) c.body script (classText c package · k) ∧
      Part.Writes k (TypeScript.style { c with settings := other }) k.name c.body module
        (TypeScript.classText { c with settings := other } · k) ∧
      ∀ site i name,
        ((∃ m, Part.Reads k c.body script site i name m) ↔ ∃ m, Part.Reads k c.body module site i name m) ∧
        ∀ m m', Part.Reads k c.body script site i name m → Part.Reads k c.body module site i name m' →
          (m.isMember = m'.isMember ↔ ¬ (site.IsCaptured k name ∧ k.hasMember name)) ∧
          (m = m' ↔ ¬ site.IsCaptured k name) := by
  refine ⟨⟨fun b => runAll_classParts c b package k, fun site scope member b => ?_⟩,
    ⟨fun b => TypeScript.runAll_classParts { c with settings := other } b k, fun site scope member b => ?_⟩,
    fun site i name => ?_⟩
  · obtain ⟨_, rfl⟩ := mem_sites_classParts.mp member
    exact site.run_code k c.body _ _ _ b
  · obtain ⟨_, rfl⟩ := TypeScript.mem_sites_classParts.mp member
    exact site.run_code k c.body _ _ _ b
  · obtain ⟨written, meanings⟩ := site.agree k c.body i name
    simp only [reads_iff, TypeScript.reads_iff, exists_and_left, written, true_and]
    exact fun m m' first second => meanings m m' first.2 second.2

/-- A class whose constructor has a parameter with the name of a field that another field starts from. -/
def capturingText : Text := "class A\n  var x = y\n  var y\n  function A(y)\n  end\nend\n"

def capturingField : Variable := { line := 2, name := "x", type := [], init := some (.ident 2 "y") }

def capturingClass : Class where
  line := 1
  name := "A"
  members := [.variable capturingField, .variable { line := 3, name := "y", type := [] },
    .function ⟨4, "A", [⟨"y", [], none⟩], [], false, [], some ⟨"/A.kn", 4, []⟩⟩]

def plainContext (backend : Backend) : EmitContext :=
  { settings := ⟨backend, "/out", [("indent", "  ")]⟩
    file := .empty "/A.kn"
    unitName := none
    qualify := id
    bodies := [] }

/-- The initial value of the field is the parameter in one backend and the other field in the other. -/
theorem reads_capturingField : Part.Reads capturingClass (plainContext .javascript).body
        (classParts (plainContext .javascript) [] capturingClass) (.initial capturingField) 0 "y" .declared ∧
      Part.Reads capturingClass (plainContext .typescript).body
        (TypeScript.classParts (plainContext .typescript) capturingClass) (.initial capturingField) 0 "y"
        .ofInstance := by
  have inside := capturingClass.mem_sites.mpr (.inl ⟨capturingField, mem_cons_self, mem_singleton_self _⟩)
  exact ⟨reads_iff.mpr ⟨inside, by rfl⟩, TypeScript.reads_iff.mpr ⟨inside, by rfl⟩⟩

theorem meaning_eq_iff_capturingClass :
    (Meaning.declared.isMember = Meaning.ofInstance.isMember ↔
        ¬ (Site.IsCaptured capturingClass "y" (.initial capturingField) ∧ capturingClass.hasMember "y")) ∧
      (Meaning.declared = Meaning.ofInstance ↔ ¬ Site.IsCaptured capturingClass "y" (.initial capturingField)) :=
  ((meaning_eq_iff_not_isCaptured (plainContext .javascript) (plainContext .typescript).settings [] capturingClass).2.2
    (.initial capturingField) 0 "y").2 .declared .ofInstance reads_capturingField.1 reads_capturingField.2

theorem not_meaning_eq_capturingClass :
    (SourceFile.parse "/A.kn" capturingText).1.decls = [.classDecl capturingClass] ∧
      (classText (plainContext .javascript) [] (plainContext .javascript).buffer capturingClass).text =
        "A = function(y) \x7b\n  this.x = y;\n  this.y = null;\n\x7d;\n" ∧
      (TypeScript.classText (plainContext .typescript) (plainContext .typescript).buffer capturingClass).text =
        "class A \x7b\n  x = this.y;\n  y;\n\n  constructor(y) \x7b\n  \x7d\n\x7d\n" ∧
      ∃ m m', Part.Reads capturingClass (plainContext .javascript).body
          (classParts (plainContext .javascript) [] capturingClass) (.initial capturingField) 0 "y" m ∧
        Part.Reads capturingClass (plainContext .typescript).body
          (TypeScript.classParts (plainContext .typescript) capturingClass) (.initial capturingField) 0 "y" m' ∧
        m.isMember ≠ m'.isMember :=
  ⟨by with_unfolding_all rfl, by decide, by decide, .declared, .ofInstance, reads_capturingField.1,
    reads_capturingField.2, by decide⟩

end ScriptBuild
