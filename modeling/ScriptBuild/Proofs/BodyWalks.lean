import ScriptBuild.Proofs.CapturedBodies
import ScriptBuild.Proofs.EmissionParts

/-! Walks over files, which resolve a function body at the place where it is written. -/

namespace ScriptBuild

open List

def Site.function? : Site → Option Function
  | .body f => some f
  | .initial _ | .default _ _ => none

theorem Function.filterMap_defaultSites (f : Function) : f.defaultSites.filterMap Site.function? = [] := by
  rw [defaultSites, filterMap_map]
  exact filterMap_eq_nil_iff.mpr fun _ _ => rfl

theorem Function.filterMap_sites (f : Function) : f.sites.filterMap Site.function? = [f] := by
  rw [sites, filterMap_append, filterMap_defaultSites]
  rfl

theorem Variable.filterMap_sites (v : Variable) : v.sites.filterMap Site.function? = [] := by
  unfold sites
  split <;> rfl

namespace Part

def functions (parts : List Part) : List Function := (sites parts).filterMap (·.1.function?)

@[simp] theorem functions_nil : functions [] = [] := rfl

@[simp] theorem functions_append (parts more : List Part) :
    functions (parts ++ more) = functions parts ++ functions more := by
  rw [functions, sites_append, filterMap_append]
  rfl

theorem functions_body (f : Function) (scope : Scope) (parts : List Part) :
    functions (.code (.body f) scope :: parts) = f :: functions parts := rfl

@[simp] theorem functions_separate (parts : List Part) : functions (.separate :: parts) = functions parts := rfl

@[simp] theorem functions_map_line (texts : List Text) : functions (texts.map line) = [] := by
  rw [functions, sites_map_line]
  rfl

theorem functions_flatMap {α : Type} (parts : α → List Part) (xs : List α) :
    functions (xs.flatMap parts) = xs.flatMap fun x => functions (parts x) := by
  rw [functions, sites_flatMap, filterMap_flatMap]
  rfl

/-- The bodies behind the head of a file, if each declaration is written with its own. -/
theorem functions_decls (head : List Text) {parts : Decl → List Part}
    (each : ∀ d, functions (parts d) = d.emittedFunctions) (ds : List Decl) :
    functions (head.map line ++ ds.flatMap fun d => .separate :: parts d) = ds.flatMap Decl.emittedFunctions := by
  simp [functions_append, functions_map_line, functions_flatMap, functions_separate, each]

theorem function?_within (scope : Scope) (sites : List Site) :
    (sites.map (Site.within scope)).filterMap (·.1.function?) = sites.filterMap Site.function? := by
  rw [filterMap_map]
  rfl

theorem runAll_congr {style : ScriptStyle} {first second : Function → List Statement} {parts : List Part} :
    (∀ f ∈ functions parts, first f = second f) → ∀ b, runAll style first b parts = runAll style second b parts := by
  induction parts with
  | nil => exact fun _ _ => rfl
  | cons part parts ih =>
    intro same b
    rw [runAll_cons]
    cases part with
    | code site scope =>
      cases site with
      | body f =>
        rw [run_body, same f mem_cons_self]
        exact ih (fun g mem => same g (mem_cons_of_mem f mem)) _
      | initial v | default f p => exact ih same _
    | _ => exact ih same _

end Part

namespace JavaScript

open ScriptBuild.Part

variable (c : EmitContext)

theorem functions_memberParts {p : Place} (inside : ∀ qname, p ≠ .interface qname) (m : Member) :
    functions (memberParts c p m) = m.function?.toList := by
  rw [functions, sites_memberParts c inside]
  rcases m with f | v
  · exact (function?_within _ _).trans f.filterMap_sites
  · exact (function?_within _ _).trans v.filterMap_sites

theorem functions_classParts (package : Text) (k : Class) :
    functions (classParts c package k) = (Decl.classDecl k).emittedFunctions := by
  have values : ∀ vs : List Variable, (vs.flatMap Variable.sites).filterMap Site.function? = [] := by
    intro vs
    rw [filterMap_flatMap]
    exact flatMap_eq_nil_iff.mpr fun v _ => v.filterMap_sites
  have constructor : ∀ fs : List Function, (fs.flatMap Function.defaultSites).filterMap Site.function? = [] := by
    intro fs
    rw [filterMap_flatMap]
    exact flatMap_eq_nil_iff.mpr fun f _ => f.filterMap_defaultSites
  have bodies : ∀ fs : List Function, (fs.map Site.body).filterMap Site.function? = fs := by
    intro fs
    rw [filterMap_map]
    exact filterMap_some
  have members : ∀ ms : List Member,
      ((ms.filter fun m => !isInstanceField m).flatMap (memberSites (k.qualifiers (joinName package k.name)))).filterMap
        (·.1.function?) = ms.filterMap Member.function? := by
    intro ms
    induction ms with
    | nil => rfl
    | cons m ms ih =>
      rcases m with f | v
      · rw [filter_cons_of_pos rfl, flatMap_cons, filterMap_append, ih, memberSites, function?_within,
          f.filterMap_sites]
        rfl
      · rw [filter_cons]
        split
        · rw [flatMap_cons, filterMap_append, ih, memberSites, function?_within, v.filterMap_sites]
          rfl
        · exact ih
  rw [functions, sites_classParts, filterMap_append, function?_within, filterMap_append,
    filterMap_append, values, constructor, bodies, members]
  rfl

theorem functions_declarationParts (package : Text) (d : Decl) :
    functions (declarationParts c package d) = d.emittedFunctions := by
  cases d with
  | classDecl k => exact functions_classParts c package k
  | interface i =>
    rw [declarationParts, functions, sites_interfaceParts]
    rfl
  | member m =>
    rw [declarationParts, functions_memberParts c fun _ same => by cases same]
    rcases m with f | v <;> rfl

theorem functions_fileParts : functions (fileParts c) = c.file.emittedFunctions := by
  unfold fileParts SourceFile.emittedFunctions SourceFile.decls
  cases c.file.package with
  | none => exact functions_map_line _
  | some p => exact functions_decls _ (functions_declarationParts c p.name) p.decls

end JavaScript

namespace TypeScript

open ScriptBuild.Part

variable (c : EmitContext)

theorem functions_functionParts (scope : Scope) (head : Text) (f : Function) :
    functions (functionParts c scope head f) = [f] := by
  rw [functions, sites_functionParts, function?_within, f.filterMap_sites]

theorem functions_variableParts (scope : Scope) (head : Text) (v : Variable) :
    functions (variableParts c scope head v) = [] := by
  rw [functions, sites_variableParts, function?_within, v.filterMap_sites]

theorem functions_classParts (k : Class) : functions (classParts c k) = (Decl.classDecl k).emittedFunctions := by
  rw [functions, sites_classParts, filterMap_append, function?_within, filterMap_flatMap, filterMap_flatMap]
  simp only [function?_within, Variable.filterMap_sites, Function.filterMap_sites]
  simp [Decl.emittedFunctions]

theorem functions_interfaceParts (i : Interface) : functions (interfaceParts c i) = [] := by
  have none : ∀ m, functions (interfaceMemberParts c m) = [] := by
    rintro (f | v)
    · rw [functions, interfaceMemberParts]
      simp only [sites_append, sites_docParts, sites_text, sites_line, sites_nil, sites_paramParts, nil_append,
        append_nil, function?_within]
      exact f.filterMap_defaultSites
    · simp [functions, interfaceMemberParts]
  rw [interfaceParts]
  simp only [functions_append, functions_flatMap, none]
  simp [functions]

theorem functions_declarationParts (d : Decl) : functions (declarationParts c d) = d.emittedFunctions := by
  cases d with
  | classDecl k => exact functions_classParts c k
  | interface i => exact functions_interfaceParts c i
  | member m =>
    rcases m with f | v
    · exact functions_functionParts c _ _ f
    · exact functions_variableParts c _ _ v

theorem functions_fileParts : functions (fileParts c) = c.file.emittedFunctions := by
  unfold fileParts SourceFile.emittedFunctions SourceFile.decls
  cases c.file.package with
  | none => exact functions_map_line _
  | some p => exact functions_decls _ (functions_declarationParts c) p.decls

end TypeScript

namespace BodyCache

variable (c : BodyCache) (unit version : Nat)

theorem resolveAll_cons_none {f : Function} (has : f.body = none) (fs : List Function) :
    c.resolveAll unit version (f :: fs) = c.resolveAll unit version fs := by
  simp [resolveAll, has]

theorem lookup_resolveAll {line : Nat} (fs : List Function) :
    ∀ c : BodyCache, line ∉ fs.map (·.line) → (c.resolveAll unit version fs).1.1.lookup line = none := by
  induction fs with
  | nil => exact fun _ _ => rfl
  | cons f fs ih =>
    intro c absent
    rw [map_cons, mem_cons, not_or] at absent
    cases has : f.body with
    | none =>
      rw [resolveAll_cons_none c unit version has]
      exact ih c absent.2
    | some body =>
      rw [resolveAll_cons_some has]
      rw [lookup_cons, beq_false_of_ne absent.1]
      exact ih _ absent.2

theorem lookups_resolveAll (fs : List Function) :
    ∀ c : BodyCache, (c.resolveAll unit version fs).2.hits + (c.resolveAll unit version fs).2.misses =
      c.hits + c.misses + (fs.filterMap (·.body)).length := by
  induction fs with
  | nil => exact fun _ => rfl
  | cons f fs ih =>
    intro c
    cases has : f.body with
    | none =>
      rw [resolveAll_cons_none c unit version has, ih, filterMap_cons_none has]
    | some body =>
      have one : (c.resolve ⟨unit, version, f.line⟩ body).2.hits + (c.resolve ⟨unit, version, f.line⟩ body).2.misses =
          c.hits + c.misses + 1 := by
        unfold resolve
        split
        · exact Nat.add_right_comm _ _ _
        · rfl
      rw [resolveAll_cons_some has, filterMap_cons_some has]
      rw [ih, one]
      exact Nat.add_right_comm _ _ _

end BodyCache

/-- How far a file has been walked. -/
structure Walk where
  buffer : Buffer
  cache : BodyCache
  /-- The bodies that were resolved, in order. -/
  resolved : List Body := []
  diagnostics : List Diagnostic := []

namespace Walk

/-- Writes a part. A body is resolved when it is to be written. -/
def visit (style : ScriptStyle) (unit version : Nat) (w : Walk) : Part → Walk
  | .code (.body f) scope =>
    match f.body with
    | none => { w with buffer := Statement.emitBody style scope w.buffer [] }
    | some body =>
      let ((block, ds), cache) := w.cache.resolve ⟨unit, version, f.line⟩ body
      { buffer := Statement.emitBody style scope w.buffer block.statements
        cache
        resolved := w.resolved ++ [body]
        diagnostics := w.diagnostics ++ ds }
  | part => { w with buffer := part.run style (fun _ => []) w.buffer }

/-- A walk resolves the bodies as if they were resolved before, and writes what is written with them. -/
theorem foldl_visit (style : ScriptStyle) (unit version : Nat) (parts : List Part) :
    ∀ w : Walk, ((Part.functions parts).map (·.line)).Nodup →
      let read := w.cache.resolveAll unit version (Part.functions parts)
      parts.foldl (visit style unit version) w =
        { buffer := Part.runAll style (fun f => (read.1.1.lookup f.line).getD []) w.buffer parts
          cache := read.2
          resolved := w.resolved ++ (Part.functions parts).filterMap (·.body)
          diagnostics := w.diagnostics ++ read.1.2 } := by
  induction parts with
  | nil =>
    simp [BodyCache.resolveAll]
  | cons part parts ih =>
    intro w distinct
    -- the parts that are no bodies are written and nothing else
    cases part with
    | code site scope =>
      cases site with
      | body f =>
        rw [Part.functions_body] at distinct ⊢
        rw [map_cons, nodup_cons] at distinct
        obtain ⟨single, distinct⟩ := distinct
        cases has : f.body with
        | none =>
          have absent := BodyCache.lookup_resolveAll unit version _ w.cache single
          rw [foldl_cons, ih _ distinct, BodyCache.resolveAll_cons_none _ unit version has, filterMap_cons_none has]
          simp [visit, has, absent]
        | some body =>
          let first := w.cache.resolve ⟨unit, version, f.line⟩ body
          have step : visit style unit version w (.code (.body f) scope) =
              ⟨Statement.emitBody style scope w.buffer first.1.1.statements, first.2, w.resolved ++ [body],
                w.diagnostics ++ first.1.2⟩ := by
            simp only [visit, has]
            rfl
          have others : ∀ table : BodyTable, ∀ g ∈ Part.functions parts,
              (((f.line, first.1.1.statements) :: table).lookup g.line).getD [] = (table.lookup g.line).getD [] := by
            intro table g mem
            have apart : g.line ≠ f.line := fun same => single (same ▸ mem_map_of_mem mem)
            rw [lookup_cons, beq_false_of_ne apart]
          rw [foldl_cons, step, ih _ distinct, BodyCache.resolveAll_cons_some has, filterMap_cons_some has]
          dsimp only
          rw [Part.runAll_cons, Part.runAll_congr (others _)]
          simp [first]
      | initial v | default f p => exact ih _ distinct
    | _ => exact ih _ distinct

/-- A walk that has come to the end of a file, with the reports, the cache and the text of an emission for which the
bodies were resolved before. -/
structure Completes (emission : EmitContext → Buffer) (c : EmitContext) (cache : BodyCache) (unit version : Nat)
    (w : Walk) : Prop where
  bodies : w.resolved.Perm c.file.functionBodies
  order : w.resolved = c.file.emittedFunctions.filterMap (·.body)
  lookups : w.cache.hits + w.cache.misses = cache.hits + cache.misses + c.file.functionBodies.length
  reports : w.diagnostics = (cache.resolveAll unit version c.file.emittedFunctions).1.2
  parsed : cache.Holds unit version c.file → w.diagnostics = (parseBodies c.file.emittedFunctions).2
  kept : w.cache = (cache.resolveAll unit version c.file.emittedFunctions).2
  text : w.buffer = emission { c with bodies := (cache.resolveAll unit version c.file.emittedFunctions).1.1 }

/-- A walk over parts that write a file, with the bodies that are written for it. -/
theorem completes {c : EmitContext} {kind : UnitKind} {path content : Text}
    (ofFile : c.file = (kind.parse path content).1) {emission : EmitContext → Buffer} {style : ScriptStyle}
    {parts : List Part}
    (functions : Part.functions parts = c.file.emittedFunctions)
    (writes : ∀ bodies,
      Part.runAll style (EmitContext.body { c with bodies }) c.buffer parts = emission { c with bodies })
    (cache : BodyCache) (unit version : Nat) :
    Completes emission c cache unit version
      (parts.foldl (visit style unit version) { buffer := c.buffer, cache }) := by
  have distinct := nodup_lines_emittedFunctions kind path content
  have perm := perm_functionBodies kind path content
  have single : ∀ g ∈ c.file.emittedFunctions, ∀ h ∈ c.file.emittedFunctions, g.line = h.line → g = h := by
    rw [ofFile]
    exact fun g first h second => emittedFunctions_eq_of_line first second
  rw [← ofFile] at distinct perm
  have walked := foldl_visit style unit version parts { buffer := c.buffer, cache } (functions ▸ distinct)
  rw [functions] at walked
  rw [walked]
  refine ⟨perm, rfl, ?_, rfl, fun holds => ?_, rfl, writes _⟩
  · exact (cache.lookups_resolveAll unit version _).trans (congrArg _ perm.length_eq)
  · exact congrArg Prod.snd (BodyCache.resolveAll_eq single _ holds fun _ inside => inside).1

end Walk

namespace TypeScript

variable (c : EmitContext) (bodies : BodyTable)

theorem paramParts_withBodies : paramParts { c with bodies } = paramParts c := by
  delta paramParts
  rfl

theorem fileParts_withBodies : fileParts { c with bodies } = fileParts c := by
  delta fileParts declarationParts classParts functionsParts methodParts constructorParts functionParts interfaceParts
    interfaceMemberParts
  rw [paramParts_withBodies]
  rfl

end TypeScript

def JavaScript.walk (c : EmitContext) (cache : BodyCache) (unit version : Nat) : Walk :=
  (fileParts c).foldl (Walk.visit (style c) unit version) { buffer := c.buffer, cache }

def TypeScript.walk (c : EmitContext) (cache : BodyCache) (unit version : Nat) : Walk :=
  (fileParts c).foldl (Walk.visit (style c) unit version) { buffer := c.buffer, cache }

section Completion

variable {c : EmitContext} {kind : UnitKind} {path content : Text} (ofFile : c.file = (kind.parse path content).1)
  (cache : BodyCache) (unit version : Nat)

include ofFile

theorem JavaScript.completes_walk : (walk c cache unit version).Completes file c cache unit version :=
  Walk.completes ofFile (functions_fileParts c) (fun bodies => runAll_fileParts { c with bodies }) cache unit version

theorem TypeScript.completes_walk : (walk c cache unit version).Completes file c cache unit version := by
  refine Walk.completes ofFile (functions_fileParts c) (fun bodies => ?_) cache unit version
  rw [← fileParts_withBodies c bodies]
  exact runAll_fileParts { c with bodies }

end Completion

end ScriptBuild
