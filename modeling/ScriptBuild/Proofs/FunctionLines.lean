import Mathlib.Data.List.Nodup
import Mathlib.Data.List.Perm.Subperm
import ScriptBuild.Build.Run
import ScriptBuild.Proofs.BlockNesting

/-! Bodies that come out of the cache are the bodies of the tree, whatever fell out of the cache before. -/

namespace ScriptBuild

open List SourceFile

variable {l : SourceLine}

namespace SourceLine

def statement (l : SourceLine) : Text := stripComment (Text.trim l.text)

/-- What follows the first word. -/
def clause (l : SourceLine) : Text := (keyword l.statement).2

/-- Blank or a comment. -/
def isGap (l : SourceLine) : Bool := (Text.trim l.text).isEmpty || Text.startsWith (Text.trim l.text) "//"

/-- The word that tells what a member is. -/
def memberWord (l : SourceLine) : Text := if l.word == "static" then (keyword l.clause).1 else l.word

end SourceLine

namespace Declaration.Reader

def inInterface (r : Reader) : Bool := r.type.any (·.isInterface)

/-- Errors at the reader's file. -/
def Reports (r : Reader) (new : List Diagnostic) : Prop := ∀ d ∈ new, d.file = r.path ∧ d.isError

/-- What a line outside of bodies does that is neither blank nor a comment. -/
inductive Acts (r : Reader) (l : SourceLine) : Reader → Prop where
  | reported {doc : List Text} {new : List Diagnostic} : r.Reports new → new ≠ [] →
      Acts r l { r with doc, diagnostics := new ++ r.diagnostics }
  | skipped {doc : List Text} {new : List Diagnostic} : r.inInterface = false → r.Reports new → new ≠ [] →
      Acts r l { r with doc, diagnostics := new ++ r.diagnostics, capture := some { function := none } }
  | packaged : r.type = none → l.word = "package" → r.sawPackage = false ∧ r.imports = [] ∧ r.decls = [] →
      Acts r l { r with sawPackage := true, name := l.clause, line := l.number }
  | imported : r.type = none → l.word = "import" → Acts r l { r with imports := ⟨l.number, l.clause⟩ :: r.imports }
  | opened {t : OpenType} {new : List Diagnostic} : r.type = none → r.Reports new →
      l.word = (if t.isInterface then "interface" else "class") → t.line = l.number → t.members = [] →
      Acts r l { r with doc := [], type := some t, diagnostics := new ++ r.diagnostics }
  | closed {t : OpenType} : r.type = some t → l.statement = "end" → Acts r l (r.closeType t)
  | declared {v : Variable} : l.memberWord = "var" ∨ l.memberWord = "const" → v.line = l.number →
      Acts r l (({ r with doc := [] } : Reader).addMember (.variable v))
  | signed {f : Function} : r.inInterface → l.memberWord = "function" → f.line = l.number → f.body = none →
      Acts r l (({ r with doc := [] } : Reader).addMember (.function f))
  | captured {f : Function} : r.inInterface = false → l.memberWord = "function" → f.line = l.number →
      Acts r l { r with doc := [], capture := some { function := some f } }

inductive Moves (r : Reader) (l : SourceLine) : Reader → Prop where
  | passed (doc : List Text) : r.capture = none → l.isGap → Moves r l { r with doc }
  | acted {later : Reader} : r.capture = none → l.isGap = false → r.Acts l later → Moves r l later
  | kept {c : Capture} {depth : Nat} : r.capture = some c →
      (∀ blocks : Nesting.Blocks, blocks.length = c.depth →
        (l.closes → blocks ≠ []) ∧ depth = (Nesting.after blocks l).length) →
      Moves r l { r with capture := some ⟨c.function, depth, l :: c.lines⟩ }
  | finished {c : Capture} : r.capture = some c → c.depth = 0 → l.closes → Moves r l (r.closeCapture c)

variable {r : Reader} {c : Capture} {t : OpenType}

theorem line_of_variableSpec {line : Nat} {spec : Text} {v : Variable}
    (read : Signature.variableSpec line spec = .ok v) : v.line = line := by
  unfold Signature.variableSpec at read
  dsimp only at read
  split at read
  · cases read
  split at read
  · cases read
    rfl
  split at read
  · cases read
    rfl
  · cases read

theorem reports_singleton (r : Reader) (line : Nat) (message : Text) :
    r.Reports [.error .parse r.path line message] :=
  forall_mem_singleton.mpr ⟨rfl, rfl⟩

theorem acts_report (doc : List Text) (line : Nat) (message : Text) :
    r.Acts l (({ r with doc } : Reader).report line message) :=
  .reported (r.reports_singleton line message) (cons_ne_nil _ _)

theorem acts_skipBlock (outside : r.inInterface = false) (doc : List Text) (line : Nat) (message : Text) :
    r.Acts l (({ r with doc } : Reader).report line message).skipBlock :=
  .skipped outside (r.reports_singleton line message) (cons_ne_nil _ _)

theorem acts_addVariable (word : l.memberWord = "var" ∨ l.memberWord = "const") (isStatic isConst : Bool)
    (doc spec : Text) : r.Acts l (({ r with doc := [] } : Reader).addVariable l.number isStatic isConst doc spec) := by
  unfold addVariable
  split
  · exact acts_report [] _ _
  · rename_i v read
    have line := line_of_variableSpec read
    exact .declared word line

theorem acts_addFunction (word : l.memberWord = "function") (isStatic : Bool) (doc spec : Text) :
    r.Acts l (({ r with doc := [] } : Reader).addFunction l.number isStatic doc spec) := by
  unfold addFunction
  dsimp only
  split
  · split_ifs with signature
    · exact acts_report [] _ _
    · exact acts_skipBlock (Bool.eq_false_iff.mpr signature) [] _ _
  · split_ifs with signature
    · exact .signed signature word rfl rfl
    · exact .captured (Bool.eq_false_iff.mpr signature) word rfl

theorem acts_member (r : Reader) (l : SourceLine) : r.Acts l (r.member l.number l.statement) := by
  have words : ∀ (word : Text) (isStatic : Bool) (doc rest : Text), l.memberWord = word →
      r.Acts l (if word == "var" then ({ r with doc := [] } : Reader).addVariable l.number isStatic false doc rest
        else if word == "const" then ({ r with doc := [] } : Reader).addVariable l.number isStatic true doc rest
        else if word == "function" then ({ r with doc := [] } : Reader).addFunction l.number isStatic doc rest
        else ({ r with doc := [] } : Reader).report l.number
          ("unexpected " ++ Text.quote word ++ " in declaration")) := by
    rintro word isStatic doc rest rfl
    split_ifs with isVar isConst isFunction
    · exact acts_addVariable (.inl (eq_of_beq isVar)) _ _ _ _
    · exact acts_addVariable (.inr (eq_of_beq isConst)) _ _ _ _
    · exact acts_addFunction (eq_of_beq isFunction) _ _ _
    · exact acts_report [] _ _
  unfold member
  dsimp only
  split
  · rename_i static
    exact words _ _ _ _ (if_pos static)
  · rename_i plain
    have done := words (keyword l.statement).1 ((keyword l.statement).1 == "static") r.docText (keyword l.statement).2
      (if_neg plain)
    generalize keyword l.statement = pair at done ⊢
    exact done

theorem acts_classWords (closed : r.type = none) (word : l.word = "class") (words : List Text) :
    ∀ {t : OpenType} {new : List Diagnostic} (mode : Text), r.Reports new → t.isInterface = false → t.line = l.number →
      t.members = [] →
        r.Acts l (({ r with doc := [], diagnostics := new ++ r.diagnostics } : Reader).classWords t mode words) := by
  induction words with
  | nil =>
    intro t new mode reports isClass line empty
    exact .opened closed reports (by rw [isClass]; exact word) line empty
  | cons w words ih =>
    intro t new mode reports isClass line empty
    unfold classWords
    split_ifs
    · exact ih _ reports isClass line empty
    · exact ih _ reports isClass line empty
    · exact ih _ reports isClass line empty
    · exact ih _ (forall_mem_cons.mpr ⟨⟨rfl, rfl⟩, reports⟩) isClass line empty

theorem acts_topLine (closed : r.type = none) : r.Acts l (r.topLine l.number l.statement) := by
  have outside : r.inInterface = false := by rw [inInterface, closed]; rfl
  unfold topLine
  dsimp only
  split_ifs with isPackage isImport isClass isInterface isMember
  · unfold packageClause
    split_ifs with begun
    · exact acts_report r.doc _ _
    · exact .packaged closed (eq_of_beq isPackage) (by simpa [and_assoc] using begun)
  · unfold importClause
    split_ifs
    · exact acts_report r.doc _ _
    · exact .imported closed (eq_of_beq isImport)
  · unfold classHeader
    split
    · exact acts_skipBlock outside r.doc _ _
    · exact acts_classWords closed (eq_of_beq isClass) _ [] (forall_mem_nil _) rfl rfl rfl
  · unfold interfaceHeader
    split
    · exact acts_skipBlock outside r.doc _ _
    · dsimp only
      split
      · exact .opened closed (forall_mem_nil _) (eq_of_beq isInterface) rfl rfl
      · split_ifs
        · exact .opened closed (forall_mem_nil _) (eq_of_beq isInterface) rfl rfl
        · exact .opened closed (r.reports_singleton _ _) (eq_of_beq isInterface) rfl rfl
  · exact acts_member r l
  · exact acts_report r.doc _ _

/-- A captured line changes the depth as it changes the open blocks. -/
theorem moves_captureLine (busy : r.capture = some c) (l : SourceLine) : r.Moves l (r.captureLine c l) := by
  unfold captureLine
  dsimp only
  split_ifs with opens closes
  · have opens : l.opens := opens
    refine .kept busy fun blocks length => ⟨fun closes => absurd opens (Nesting.not_opens_of_closes closes), ?_⟩
    rw [Nesting.after_of_opens opens, length_cons, length]
  · have closes : l.closes := closes
    split
    · rename_i zero
      exact .finished busy zero closes
    · rename_i depth positive
      refine .kept busy fun blocks length => ?_
      rw [positive] at length
      refine ⟨fun _ => ne_nil_of_length_eq_add_one length, ?_⟩
      rw [Nesting.after_of_closes closes, length_tail, length]
      rfl
  · have opens : ¬ l.opens := opens
    have closes : ¬ l.closes := closes
    refine .kept busy fun blocks length => ⟨fun ends => absurd ends closes, ?_⟩
    rw [Nesting.after, if_neg opens, if_neg closes, length]

theorem moves_step (r : Reader) (l : SourceLine) : r.Moves l (r.step l) := by
  unfold step
  split
  · rename_i c busy
    exact moves_captureLine busy l
  · rename_i idle
    dsimp only
    split
    · rename_i doc found
      refine .passed _ idle (Bool.or_eq_true_iff.mpr (.inr ?_))
      rw [Text.append_of_dropPrefix? found]
      rfl
    · split_ifs with gap
      · exact .passed r.doc idle gap
      · refine .acted idle (Bool.eq_false_iff.mpr gap) ?_
        unfold significant
        split
        · rename_i t type
          split_ifs with ends
          · exact .closed type (eq_of_beq ends)
          · exact acts_member r l
        · rename_i closed
          exact acts_topLine closed

/-- What the end of the file does about an open type. -/
def endType (r : Reader) : Reader :=
  match r.type with
  | none => r
  | some t => (r.report t.line ("missing end for " ++ t.label)).closeType t

theorem finish_cases (r : Reader) : (r.finish = r.endType ∧ ∀ c, r.capture = some c → c.function = none) ∨
    ∃ c f, r.capture = some c ∧ c.function = some f ∧
      r.finish = ((r.report f.line ("missing end for function " ++ f.name)).closeCapture c).endType := by
  unfold finish
  cases busy : r.capture with
  | none => exact .inl ⟨rfl, by simp⟩
  | some c =>
    cases function : c.function with
    | none => exact .inl ⟨by simp only [function]; rfl, by simpa using function⟩
    | some f => exact .inr ⟨c, f, rfl, function, by simp [function]; rfl⟩

end Declaration.Reader

open Option

variable {g : Function}

def Decl.isInterface : Decl → Bool
  | .interface _ => true
  | _ => false

namespace Declaration.Reader

/-- The members read so far, the last one first, with whether they are those of an interface. -/
def held (r : Reader) : List (Bool × Member) :=
  r.type.toList.flatMap (fun t => t.members.map (t.isInterface, ·)) ++
    r.decls.flatMap fun d => d.members.reverse.map (d.isInterface, ·)

/-- The lines of the functions read so far, the last one first. -/
def functionLines (r : Reader) : List Nat :=
  ((r.capture.bind (·.function)).toList ++ r.held.filterMap (·.2.function?)).map (·.line)

variable {r later : Reader} {t : OpenType} {c : Capture} {n : Nat}

theorem addMember_frame (r : Reader) (m : Member) : (r.addMember m).path = r.path ∧
    (r.addMember m).diagnostics = r.diagnostics ∧ (r.addMember m).capture = r.capture ∧
    (r.addMember m).inInterface = r.inInterface ∧ (r.addMember m).held = (r.inInterface, m) :: r.held := by
  cases type : r.type <;> simp [addMember, held, inInterface, type, Decl.members, Decl.isInterface]

theorem held_closeType (type : r.type = some t) : (r.closeType t).held = r.held := by
  have same : t.decl.members.reverse.map (t.decl.isInterface, ·) = t.members.map (t.isInterface, ·) := by
    unfold OpenType.decl
    cases t.isInterface <;> simp [Decl.members, Decl.isInterface]
  simp only [closeType, held, type, flatMap_cons, same, toList_none, flatMap_nil, nil_append, toList_some,
    append_nil]

theorem functionLines_addMember (idle : r.capture = none) (m : Member) :
    (r.addMember m).functionLines = m.function?.toList.map (·.line) ++ r.functionLines := by
  obtain ⟨_, _, capture, _, held⟩ := addMember_frame r m
  cases m <;> simp [functionLines, capture, held, idle, Member.function?]

theorem functionLines_closeType (type : r.type = some t) : (r.closeType t).functionLines = r.functionLines := by
  rw [functionLines, held_closeType type]
  rfl

theorem functionLines_closeCapture (busy : r.capture = some c) : (r.closeCapture c).functionLines = r.functionLines := by
  unfold closeCapture
  cases function : c.function with
  | none => simp [functionLines, held, busy, function]
  | some f =>
    dsimp only
    rw [functionLines_addMember rfl]
    simp [functionLines, held, busy, function, Member.function?]

/-- A line begins one function at most. -/
theorem Moves.functionLines {l : SourceLine} (moves : r.Moves l later) :
    later.functionLines = r.functionLines ∨ later.functionLines = l.number :: r.functionLines := by
  cases moves with
  | passed => exact .inl rfl
  | kept busy => exact .inl (by simp [functionLines, held, busy])
  | finished busy => exact .inl (functionLines_closeCapture busy)
  | acted idle _ acts =>
    cases acts with
    | reported | packaged | imported => exact .inl rfl
    | skipped => exact .inl (by simp [functionLines, held, idle])
    | opened closed _ _ _ empty => exact .inl (by simp [functionLines, held, closed, empty])
    | closed type => exact .inl (functionLines_closeType type)
    | declared => exact .inl (@functionLines_addMember { r with doc := [] } idle _)
    | signed _ _ line => exact .inr (line ▸ @functionLines_addMember { r with doc := [] } idle _)
    | captured _ _ line => exact .inr (by simp [functionLines, held, idle, line])

theorem functionLines_endType (r : Reader) : r.endType.functionLines = r.functionLines := by
  unfold endType
  split
  · rfl
  · rename_i t type
    exact functionLines_closeType type

theorem functionLines_finish (r : Reader) : r.finish.functionLines = r.functionLines := by
  rcases finish_cases r with ⟨same, _⟩ | ⟨c, f, busy, _, same⟩
  · rw [same, functionLines_endType]
  · rw [same, functionLines_endType]
    exact functionLines_closeCapture busy

theorem pairwise_functionLines (texts : List Text) : ∀ {r : Reader} {n : Nat}, (n :: r.functionLines).Pairwise (· > ·) →
    ((numbered n texts).foldl step r).functionLines.Pairwise (· > ·) := by
  induction texts with
  | nil => exact fun sorted => (pairwise_cons.mp sorted).2
  | cons text texts ih =>
    intro r n sorted
    obtain ⟨before, others⟩ := pairwise_cons.mp sorted
    have sooner : ∀ line ∈ r.functionLines, line < n + 1 := fun line mem => Nat.lt_succ_of_lt (before line mem)
    refine ih ?_
    rcases (moves_step r ⟨n, text⟩).functionLines with same | more
    · rw [same]
      exact pairwise_cons.mpr ⟨sooner, others⟩
    · rw [more]
      exact pairwise_cons.mpr ⟨forall_mem_cons.mpr ⟨Nat.lt_succ_self n, sooner⟩, sorted⟩

end Declaration.Reader

def SourceFile.functions (f : SourceFile) : List Function :=
  f.decls.flatMap fun d => d.members.filterMap Member.function?

section

variable (k : Class) (kind : UnitKind) (path content : Text)

theorem nodup_lines_parse : ((parse path content).1.functions.map (·.line)).Nodup := by
  have sorted := @Declaration.Reader.pairwise_functionLines
    (Text.split '\n' (Text.replaceAll "\r\n" "\n" content)) { path } 1 (pairwise_singleton _ _)
  rw [← Declaration.Reader.functionLines_finish] at sorted
  have part : ∀ r : Declaration.Reader, (r.file.functions.map (·.line)).reverse <:+ r.functionLines := by
    intro r
    have same : r.file.functions.reverse =
        (r.decls.flatMap fun d => d.members.reverse.map (d.isInterface, ·)).filterMap (·.2.function?) := by
      simp [functions, decls, Declaration.Reader.file, reverse_flatMap, filterMap_flatMap,
        Function.comp_def, filterMap_map]
    rw [← map_reverse, same, Declaration.Reader.functionLines, Declaration.Reader.held, filterMap_append, ← append_assoc]
    exact (suffix_append _ _).map _
  exact nodup_reverse.mp ((sorted.imp Nat.ne_of_gt).sublist (part _).sublist)

theorem functions_parseMarkup : (parseMarkup path content).1.functions = [] := by
  unfold parseMarkup
  dsimp only
  split
  · rfl
  · split
    · rfl
    · simp [functions, decls, Decl.members, Markup.Document.toClass,
        filterMap_map, Member.function?, Function.comp_def]

theorem nodup_lines_kindParse : ((kind.parse path content).1.functions.map (·.line)).Nodup := by
  cases kind with
  | source => exact nodup_lines_parse path content
  | markup =>
    change ((parseMarkup path content).1.functions.map (·.line)).Nodup
    rw [functions_parseMarkup]
    exact nodup_nil
  | resource => exact nodup_nil

/-- The entry at a position and the entries at all others, with the positions counted from `n`. -/
theorem perm_cons_filter_zipIdx {α : Type} {x : α} (xs : List α) :
    ∀ n i, xs[i]? = some x → (x :: ((xs.zipIdx n).filter fun e => e.2 != n + i).map (·.1)).Perm xs := by
  induction xs with
  | nil => exact fun _ _ found => nomatch found
  | cons y ys ih =>
    intro n i found
    rw [zipIdx_cons]
    cases i with
    | zero =>
      have later : ∀ e ∈ ys.zipIdx (n + 1), (e.2 != n + 0) = true := by
        rintro ⟨z, j⟩ mem
        have low := le_snd_of_mem_zipIdx mem
        simp only [bne_iff_ne]
        omega
      rw [filter_cons_of_neg (by simp), filter_eq_self.mpr later, zipIdx_map_fst]
      injection found with same
      rw [same]
    | succ i =>
      have rest := ih (n + 1) i found
      rw [Nat.add_right_comm] at rest
      rw [filter_cons_of_pos (by simp)]
      exact (Perm.swap _ _ _).trans (rest.cons y)

theorem Class.perm_members : ((k.constructor?.map Member.function).toList ++ k.ordinaryMembers).Perm k.members := by
  unfold constructor? ordinaryMembers
  cases first : k.constructorIndex? with
  | none =>
    have all : k.numbered.filter (fun e => some e.2 != none) = k.numbered := filter_eq_self.mpr fun _ _ => rfl
    rw [all, numbered, zipIdx_map_fst]
    rfl
  | some i =>
    obtain ⟨⟨m, j⟩, found, rfl⟩ := map_eq_some_iff.mp first
    have constructs := find?_some found
    have place := mk_mem_zipIdx_iff_getElem?.mp (mem_reverse.mp (mem_of_find?_eq_some found))
    have perm := perm_cons_filter_zipIdx k.members 0 j place
    rcases m with f | v
    · have same : ∀ i : Nat, (some i != some j) = (i != j) := fun _ => rfl
      simpa [place, numbered, same] using perm
    · cases constructs

theorem Class.perm_functions : (Decl.classDecl k).emittedFunctions.Perm (k.members.filterMap Member.function?) := by
  have perm := k.perm_members.filterMap Member.function?
  refine Perm.trans (Perm.of_eq ?_) perm
  rw [Decl.emittedFunctions]
  cases k.constructor? <;> rfl

/-- The functions of a declaration whose bodies are written are among its functions. -/
theorem Decl.subperm_functions (d : Decl) : d.emittedFunctions.Subperm (d.members.filterMap Member.function?) := by
  cases d with
  | classDecl k => exact k.perm_functions.subperm
  | interface i => exact nil_subperm
  | member m => rcases m with f | v <;> exact Subperm.refl _

theorem SourceFile.subperm_functions (f : SourceFile) : f.emittedFunctions.Subperm f.functions := by
  unfold emittedFunctions functions
  induction f.decls with
  | nil => exact Subperm.refl _
  | cons d ds ih =>
    exact d.subperm_functions.append ih

theorem nodup_lines_emittedFunctions : ((kind.parse path content).1.emittedFunctions.map (·.line)).Nodup := by
  obtain ⟨fs, same, part⟩ := (kind.parse path content).1.subperm_functions
  have lines := (nodup_lines_kindParse kind path content).sublist (part.map (·.line))
  exact (same.map (·.line)).nodup_iff.mp lines

end

theorem emittedFunctions_eq_of_line {kind : UnitKind} {path content : Text} {h : Function}
    (first : g ∈ (kind.parse path content).1.emittedFunctions)
    (second : h ∈ (kind.parse path content).1.emittedFunctions) (same : g.line = h.line) : g = h :=
  inj_on_of_nodup_map (nodup_lines_emittedFunctions kind path content) first second same

namespace BodyCache

/-- An entry that agrees with the functions of a file at its line. -/
def Agrees (f : SourceFile) (e : BodyKey × (Block × List Diagnostic)) : Prop :=
  ∀ g ∈ f.emittedFunctions, g.line = e.1.line → ∀ body, g.body = some body → e.2 = body.parse

/-- What the cache has of a version of a unit agrees with its file. -/
def Holds (c : BodyCache) (unit version : Nat) (f : SourceFile) : Prop :=
  ∀ e ∈ c.entries, e.1.unit = unit → e.1.version = version → Agrees f e

/-- A later cache whose new entries are for a version of a unit and agree with its file. -/
def Extends (c later : BodyCache) (unit version : Nat) (f : SourceFile) : Prop :=
  ∀ e ∈ later.entries, e ∈ c.entries ∨ (e.1.unit = unit ∧ e.1.version = version ∧ Agrees f e)

variable {c : BodyCache} {unit version : Nat} {f : SourceFile}

theorem Extends.holds {later : BodyCache} (more : c.Extends later unit version f)
    (holds : c.Holds unit version f) : later.Holds unit version f :=
  fun e mem sameUnit sameVersion =>
    (more e mem).elim (fun old => holds e old sameUnit sameVersion) (·.2.2)

section Resolve

variable {g : Function} {body : Body}
  (distinct : ∀ g ∈ f.emittedFunctions, ∀ h ∈ f.emittedFunctions, g.line = h.line → g = h)

include distinct in
theorem agrees_parse (mem : g ∈ f.emittedFunctions) (has : g.body = some body) :
    Agrees f (⟨unit, version, g.line⟩, body.parse) := by
  intro h other same body' has'
  rw [distinct h other g mem same, has] at has'
  injection has' with has'
  rw [has']

include distinct in
theorem resolve_eq (holds : c.Holds unit version f) (mem : g ∈ f.emittedFunctions) (has : g.body = some body) :
    (c.resolve ⟨unit, version, g.line⟩ body).1 = body.parse ∧
      c.Extends (c.resolve ⟨unit, version, g.line⟩ body).2 unit version f := by
  unfold resolve
  cases found : c.entries.lookup ⟨unit, version, g.line⟩ with
  | some parsed =>
    obtain ⟨front, back, split, _⟩ := lookup_eq_some_iff.mp found
    have entry : (⟨unit, version, g.line⟩, parsed) ∈ c.entries := by
      rw [split]
      exact mem_append_right _ mem_cons_self
    refine ⟨holds _ entry rfl rfl g mem rfl body has, fun e inside => .inl ?_⟩
    rcases mem_cons.mp inside with rfl | kept
    · exact entry
    · exact (mem_filter.mp kept).1
  | none =>
    refine ⟨rfl, fun e inside => ?_⟩
    rcases mem_cons.mp (mem_of_mem_take inside) with rfl | old
    · exact .inr ⟨rfl, rfl, agrees_parse distinct mem has⟩
    · exact .inl old

theorem parseBodies_cons_none (has : g.body = none) (fs : List Function) : parseBodies (g :: fs) = parseBodies fs := by
  simp [parseBodies, has]

theorem parseBodies_cons_some (has : g.body = some body) (fs : List Function) : parseBodies (g :: fs) =
      ((g.line, body.parse.1.statements) :: (parseBodies fs).1, body.parse.2 ++ (parseBodies fs).2) := by
  simp [parseBodies, has]

theorem resolveAll_cons_some (has : g.body = some body) (c : BodyCache) (unit version : Nat) (fs : List Function) :
    c.resolveAll unit version (g :: fs) =
      let first := c.resolve ⟨unit, version, g.line⟩ body
      let rest := first.2.resolveAll unit version fs
      (((g.line, first.1.1.statements) :: rest.1.1, first.1.2 ++ rest.1.2), rest.2) := by
  simp only [resolveAll, has]

include distinct in
theorem resolveAll_eq (fs : List Function) :
    ∀ {c : BodyCache}, c.Holds unit version f → (∀ g ∈ fs, g ∈ f.emittedFunctions) →
      (c.resolveAll unit version fs).1 = parseBodies fs ∧
        c.Extends (c.resolveAll unit version fs).2 unit version f := by
  induction fs with
  | nil => exact fun _ _ => ⟨rfl, fun e mem => .inl mem⟩
  | cons g fs ih =>
    intro c holds inside
    obtain ⟨mem, rest⟩ := forall_mem_cons.mp inside
    cases has : g.body with
    | none =>
      rw [parseBodies_cons_none has]
      simp only [resolveAll, has]
      exact ih holds rest
    | some body =>
      obtain ⟨parsed, first⟩ := resolve_eq distinct holds mem has
      obtain ⟨others, second⟩ := ih (first.holds holds) rest
      rw [parseBodies_cons_some has, resolveAll_cons_some has]
      dsimp only
      rw [parsed, others]
      exact ⟨rfl, fun e mem => (second e mem).elim (first e) .inr⟩

end Resolve

end BodyCache

end ScriptBuild
