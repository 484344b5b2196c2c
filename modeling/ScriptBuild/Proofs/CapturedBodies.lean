import ScriptBuild.Proofs.FunctionLines

/-! Reading declarations takes the lines up to the `end` of a function as its body, by counting words alone. -/

namespace ScriptBuild

open List SourceFile Nesting Declaration.Reader Declaration

variable {f : Function}

def Function.cutOff (f : Function) (path : Text) : Diagnostic :=
  .error .parse path f.line ("missing end for function " ++ f.name)

/-- A body of file `path` in which every `end` has its block, and no block is left open unless the
function is reported as cut off. -/
structure Body.Captured (path : Text) (reported : Diagnostic → Prop) (f : Function) (b : Body) : Prop where
  file : b.file = path
  matched : Nesting.Matched b.lines
  closed : leftOpen b.lines = [] ∨ reported (f.cutOff path)

/-- A member whose body, if it has one, was captured; members of interfaces have none. -/
def Member.Fits (path : Text) (reported : Diagnostic → Prop) (isInterface : Bool) (m : Member) : Prop :=
  ∀ f, m.function? = some f → ∀ b, f.body = some b → isInterface = false ∧ b.Captured path reported f

namespace Declaration

variable {c : Capture} {t : OpenType}

/-- Lines of a block that are read so far: `depth` counts the blocks that they left open. -/
structure Capture.Counts (c : Capture) : Prop where
  matched : Nesting.Matched c.lines.reverse
  depth : c.depth = (leftOpen c.lines.reverse).length

theorem Capture.Counts.next (counts : c.Counts) {l : SourceLine} {depth : Nat}
    (next : ∀ blocks : Nesting.Blocks, blocks.length = c.depth →
      (l.closes → blocks ≠ []) ∧ depth = (after blocks l).length) :
    (⟨c.function, depth, l :: c.lines⟩ : Capture).Counts := by
  obtain ⟨fits, same⟩ := next _ counts.depth.symm
  constructor
  · rw [reverse_cons]
    exact matched_concat counts.matched fits
  · rw [reverse_cons, leftOpen_concat]
    exact same

namespace Reader

structure Tidy (file : Text) (reported : Diagnostic → Prop) (r : Reader) : Prop where
  path : r.path = file
  reports : ∀ d ∈ r.diagnostics, d.file = file ∧ d.isError
  held : ∀ m ∈ r.held, m.2.Fits file reported m.1
  capture : ∀ c, r.capture = some c → c.Counts ∧ r.inInterface = false

variable {file : Text} {reported : Diagnostic → Prop} {r : Reader}

theorem fits_variable (v : Variable) (isInterface : Bool) : (Member.variable v).Fits file reported isInterface := by
  intro f absent
  cases absent

theorem fits_signature (bare : f.body = none) (isInterface : Bool) :
    (Member.function f).Fits file reported isInterface := by
  rintro _ ⟨⟩ b has
  rw [bare] at has
  cases has

namespace Tidy

variable (tidy : r.Tidy file reported)

include tidy

theorem decls {d : Decl} (decl : d ∈ r.decls) {m : Member} (mem : m ∈ d.members) :
    m.Fits file reported d.isInterface :=
  tidy.held (_, m) (mem_append_right _ (mem_flatMap.mpr ⟨d, decl, mem_map_of_mem (mem_reverse.mpr mem)⟩))

theorem withReports {new : List Diagnostic} (doc : List Text) (added : r.Reports new) :
    ({ r with doc, diagnostics := new ++ r.diagnostics } : Reader).Tidy file reported :=
  ⟨tidy.path, forall_mem_append.mpr ⟨tidy.path ▸ added, tidy.reports⟩, tidy.held, tidy.capture⟩

theorem report (line : Nat) (message : Text) : (r.report line message).Tidy file reported :=
  tidy.withReports r.doc (r.reports_singleton line message)

theorem addMember {m : Member} (fits : m.Fits file reported r.inInterface) : (r.addMember m).Tidy file reported := by
  obtain ⟨path, reports, capture, inside, held⟩ := addMember_frame r m
  constructor
  · exact path.trans tidy.path
  · rw [reports]
    exact tidy.reports
  · rw [held]
    exact forall_mem_cons.mpr ⟨fits, tidy.held⟩
  · rw [capture, inside]
    exact tidy.capture

theorem startCapture (outside : r.inInterface = false) (function : Option Function) :
    ({ r with capture := some { function } } : Reader).Tidy file reported := by
  refine ⟨tidy.path, tidy.reports, tidy.held, ?_⟩
  rintro _ ⟨⟩
  exact ⟨⟨matched_nil, rfl⟩, outside⟩

theorem closeType (type : r.type = some t) : (r.closeType t).Tidy file reported :=
  ⟨tidy.path, tidy.reports, held_closeType type ▸ tidy.held, fun c busy => ⟨(tidy.capture c busy).1, rfl⟩⟩

theorem closeCapture (captured : r.capture = some c)
    (closed : c.depth = 0 ∨ ∀ f, c.function = some f → reported (f.cutOff file)) :
    (r.closeCapture c).Tidy file reported := by
  obtain ⟨counts, outside⟩ := tidy.capture c captured
  have idle : ({ r with capture := none } : Reader).Tidy file reported :=
    ⟨tidy.path, tidy.reports, tidy.held, fun _ absent => (by cases absent)⟩
  unfold Reader.closeCapture
  dsimp only
  split
  · exact idle
  · rename_i f function
    refine idle.addMember ?_
    rintro _ ⟨⟩ _ ⟨⟩
    refine ⟨outside, tidy.path, counts.matched, ?_⟩
    rcases closed with zero | cut
    · left
      rw [counts.depth] at zero
      exact length_eq_zero_iff.mp zero
    · exact .inr (cut f function)

theorem moves {l : SourceLine} {later : Reader} (moves : r.Moves l later) : later.Tidy file reported := by
  have cleared := tidy.withReports [] (forall_mem_nil _)
  cases moves with
  | passed doc => exact tidy.withReports doc (forall_mem_nil _)
  | @kept c depth busy next =>
    obtain ⟨counts, outside⟩ := tidy.capture c busy
    refine ⟨tidy.path, tidy.reports, tidy.held, ?_⟩
    rintro _ ⟨⟩
    exact ⟨counts.next next, outside⟩
  | finished busy zero => exact tidy.closeCapture busy (.inl zero)
  | acted idle _ acts =>
    cases acts with
    | reported reports => exact tidy.withReports _ reports
    | skipped outside reports => exact (tidy.withReports _ reports).startCapture outside none
    | packaged | imported => exact ⟨tidy.path, tidy.reports, tidy.held, tidy.capture⟩
    | opened closed reports _ _ empty =>
      refine ⟨tidy.path, (tidy.withReports [] reports).reports, ?_, by simp [idle]⟩
      simpa [Reader.held, closed, empty] using tidy.held
    | closed type => exact tidy.closeType type
    | declared => exact cleared.addMember (fits_variable _ _)
    | signed _ _ _ bare => exact cleared.addMember (fits_signature bare _)
    | captured outside => exact cleared.startCapture outside _

omit tidy in
theorem foldl (ls : List SourceLine) :
    ∀ {r : Reader}, r.Tidy file reported → (ls.foldl step r).Tidy file reported := by
  induction ls with
  | nil => exact fun tidy => tidy
  | cons l ls ih => exact fun tidy => ih (tidy.moves (moves_step _ l))

end Tidy

theorem diagnostics_closeCapture (r : Reader) (c : Capture) : (r.closeCapture c).diagnostics = r.diagnostics := by
  unfold closeCapture
  dsimp only
  split
  · rfl
  · exact (addMember_frame _ _).2.1

theorem Tidy.endType (tidy : r.Tidy file reported) : r.endType.Tidy file reported := by
  unfold Reader.endType
  split
  · exact tidy
  · rename_i t type
    exact (tidy.report _ _).closeType type

theorem suffix_endType (r : Reader) : r.diagnostics <:+ r.endType.diagnostics := by
  unfold endType
  split
  · exact suffix_rfl
  · exact suffix_cons _ _

/-- The end of the file cuts off a function only with a report. -/
theorem Tidy.finish (tidy : r.Tidy file reported) (all : ∀ d ∈ r.finish.diagnostics, reported d) :
    r.finish.Tidy file reported := by
  rcases finish_cases r with ⟨same, _⟩ | ⟨c, f, captured, function, same⟩
  · rw [same]
    exact tidy.endType
  · rw [same] at all ⊢
    refine endType ((tidy.report f.line _).closeCapture captured (.inr fun g other => ?_))
    obtain rfl : f = g := Option.some.inj (function.symm.trans other)
    refine all _ ((suffix_endType _).subset ?_)
    rw [diagnostics_closeCapture, Function.cutOff, ← tidy.path]
    exact mem_cons_self

end Reader

end Declaration

theorem SourceFile.tidy_parse (path content : Text) :
    ∃ r : Declaration.Reader, r.Tidy path (· ∈ (parse path content).2) ∧
      parse path content = (r.file, r.diagnostics.reverse) := by
  let last := (sourceLines content).foldl step { path }
  have start : ({ path } : Declaration.Reader).Tidy path (· ∈ (parse path content).2) := by
    constructor <;> simp [held]
  have tidy := start.foldl (sourceLines content)
  exact ⟨last.finish, tidy.finish fun d mem => mem_reverse.mpr mem, rfl⟩

/-- In a declaration whose functions have bodies only outside of interfaces, every body is written. -/
theorem Decl.perm_bodies {d : Decl}
    (outside : ∀ m ∈ d.members, ∀ f, m.function? = some f → f.body.isSome → d.isInterface = false) :
    (d.emittedFunctions.filterMap (·.body)).Perm ((d.members.filterMap Member.function?).filterMap (·.body)) := by
  cases d with
  | classDecl k => exact k.perm_functions.filterMap _
  | interface i =>
    have none : (i.members.filterMap Member.function?).filterMap (·.body) = [] := by
      refine filterMap_eq_nil_iff.mpr fun f mem => ?_
      obtain ⟨m, inside, function⟩ := mem_filterMap.mp mem
      cases has : f.body with
      | none => rfl
      | some body => cases outside m inside f function (by rw [has]; rfl)
    rw [members, none]
    exact Perm.refl _
  | member m => rcases m with f | v <;> exact Perm.refl _

/-- The bodies that are written for a file that was parsed are its function bodies. -/
theorem perm_functionBodies (kind : UnitKind) (path content : Text) :
    ((kind.parse path content).1.emittedFunctions.filterMap (·.body)).Perm
      (kind.parse path content).1.functionBodies := by
  have all : ∀ f : SourceFile,
      (∀ d ∈ f.decls, ∀ m ∈ d.members, ∀ g, m.function? = some g → g.body.isSome → d.isInterface = false) →
      (f.emittedFunctions.filterMap (·.body)).Perm f.functionBodies := by
    intro f outside
    rw [emittedFunctions, functionBodies, filterMap_flatMap, filterMap_flatMap]
    exact List.Perm.flatMap_left _ fun d mem => Decl.perm_bodies (outside d mem)
  refine all _ fun d decl m inside g function has => ?_
  obtain ⟨body, has⟩ := Option.isSome_iff_exists.mp has
  cases kind with
  | source =>
    obtain ⟨r, tidy, same⟩ := tidy_parse path content
    change d ∈ (parse path content).1.decls at decl
    rw [same] at decl
    exact (tidy.decls (mem_reverse.mp decl) inside g function body has).1
  | markup =>
    have mem : g ∈ (parseMarkup path content).1.functions :=
      mem_flatMap.mpr ⟨d, decl, mem_filterMap.mpr ⟨m, inside, function⟩⟩
    rw [functions_parseMarkup] at mem
    cases mem
  | resource => cases decl

theorem SourceFile.captured_parse {path content : Text} {b : Body}
    (mem : f ∈ (parse path content).1.functions) (has : f.body = some b) :
    b.Captured path (· ∈ (parse path content).2) f := by
  obtain ⟨r, tidy, same⟩ := tidy_parse path content
  rw [same] at mem tidy ⊢
  obtain ⟨d, decl, inside⟩ := mem_flatMap.mp mem
  obtain ⟨m, inMembers, function⟩ := mem_filterMap.mp inside
  exact (tidy.decls (mem_reverse.mp decl) inMembers f function b has).2

/-- Statements are read with the blocks that capturing their lines counted: in a function that was cut off, the blocks
that its lines leave open are reported, each once. -/
theorem Body.nesting_eq_leftOpen {path content : Text} {f : Function} {b : Body}
    (member : f ∈ (SourceFile.parse path content).1.functions) (has : f.body = some b) :
    (f.cutOff path ∉ (SourceFile.parse path content).2 → ∀ d ∈ b.parse.2, ¬ d.isNesting) ∧
      b.parse.2.filter Diagnostic.isNesting =
        (leftOpen b.lines).map (Block.Reader.missing path) := by
  have captured := captured_parse member has
  have nesting := Body.nesting_parse captured.matched
  rw [captured.file] at nesting
  refine ⟨fun whole => ?_, nesting⟩
  rcases captured.closed with closed | cut
  · rw [closed] at nesting
    exact List.filter_eq_nil_iff.mp nesting
  · exact absurd cut whole

/-- A function with a broken condition and a stray `else`, and one that the file cuts off. -/
def cutOffText : Text :=
  "function f()\nif a +\nelse\nelse\nend // if\nend\nfunction g()\nwhile b\nif c\nend;\nif d"

def wholeBody : Body := ⟨"/a.kn", 1, [⟨2, "if a +"⟩, ⟨3, "else"⟩, ⟨4, "else"⟩, ⟨5, "end // if"⟩]⟩

def cutOffBody : Body := ⟨"/a.kn", 7, [⟨8, "while b"⟩, ⟨9, "if c"⟩, ⟨10, "end;"⟩, ⟨11, "if d"⟩]⟩

theorem nesting_cutOffText :
    (∀ d ∈ wholeBody.parse.2, ¬ d.isNesting) ∧
      cutOffBody.parse.2.filter Diagnostic.isNesting =
        [.error .parse "/a.kn" 11 "missing end for if", .error .parse "/a.kn" 8 "missing end for while"] := by
  have functions : (parse "/a.kn" cutOffText).1.functions =
      [⟨1, "f", [], [], false, [], some wholeBody⟩, ⟨7, "g", [], [], false, [], some cutOffBody⟩] := by
    rfl
  have reports : (parse "/a.kn" cutOffText).2 =
      [.error .parse "/a.kn" 7 "missing end for function g"] := by
    rfl
  refine ⟨(Body.nesting_eq_leftOpen (functions ▸ List.mem_cons_self) rfl).1 ?_, ?_⟩
  · rw [reports]
    decide
  · exact (Body.nesting_eq_leftOpen (functions ▸ List.mem_cons_of_mem _ List.mem_cons_self) rfl).2

namespace Declaration

/-- The lines of a member. The lines of a body are followed by the `end` of the function. -/
inductive MemberLines (path : Text) (isInterface : Bool) : List SourceLine → Member → Prop where
  | variable {l : SourceLine} {v : Variable} : l.isGap = false → l.memberWord = "var" ∨ l.memberWord = "const" →
      v.line = l.number → MemberLines path isInterface [l] (.variable v)
  | signature {l : SourceLine} {f : Function} : isInterface → l.isGap = false → l.memberWord = "function" →
      f.line = l.number → f.body = none → MemberLines path isInterface [l] (.function f)
  | function {l last : SourceLine} {f : Function} {body : List SourceLine} : isInterface = false → l.isGap = false →
      l.memberWord = "function" → f.line = l.number → f.body = some ⟨path, l.number, body⟩ →
      Nesting.Matched body → leftOpen body = [] → last.closes →
      MemberLines path isInterface (l :: (body ++ [last])) (.function f)

/-- What lines of a file declare, in their order, and the type that they leave open. -/
structure Layout where
  hasPackage : Bool := false
  line : Nat := 1
  name : Text := []
  imports : List Import := []
  decls : List Decl := []
  type : Option OpenType := none

namespace Layout

def inInterface (s : Layout) : Bool := s.type.any (·.isInterface)

def add (s : Layout) (m : Member) : Layout :=
  match s.type with
  | some t => { s with type := some { t with members := m :: t.members } }
  | none => { s with decls := s.decls ++ [.member m] }

end Layout

/-- What one line declares that is neither part of a member nor anything else than this. -/
inductive Layout.Reads (s : Layout) (l : SourceLine) : Layout → Prop where
  | gap : l.isGap → Reads s l s
  | package : l.isGap = false → l.word = "package" → s.type = none →
      s.hasPackage = false ∧ s.imports = [] ∧ s.decls = [] →
      Reads s l { s with hasPackage := true, line := l.number, name := l.clause }
  | imported : l.isGap = false → l.word = "import" → s.type = none →
      Reads s l { s with imports := s.imports ++ [⟨l.number, l.clause⟩] }
  | header {t : OpenType} : l.isGap = false → l.word = (if t.isInterface then "interface" else "class") →
      s.type = none → t.line = l.number → t.members = [] → Reads s l { s with type := some t }
  | close {t : OpenType} : l.isGap = false → l.statement = "end" → s.type = some t →
      Reads s l { s with type := none, decls := s.decls ++ [t.decl] }

/-- Every line is read by itself or belongs to one member. -/
inductive LaidOut (path : Text) : List SourceLine → Layout → Prop where
  | nil : LaidOut path [] {}
  | line {l : SourceLine} {ls : List SourceLine} {s later : Layout} : LaidOut path ls s → s.Reads l later →
      LaidOut path (ls ++ [l]) later
  | member {ls lines : List SourceLine} {s : Layout} {m : Member} : LaidOut path ls s →
      MemberLines path s.inInterface lines m → LaidOut path (ls ++ lines) (s.add m)

namespace Reader

variable {r later : Reader} {c : Capture} {l : SourceLine} {ls : List SourceLine}

def layout (r : Reader) : Layout :=
  ⟨r.sawPackage, r.line, r.name, r.imports.reverse, r.decls.reverse, r.type⟩

theorem layout_addMember (r : Reader) (m : Member) : (r.addMember m).layout = r.layout.add m := by
  cases type : r.type <;> simp [addMember, layout, Layout.add, type]

theorem Moves.suffix (moves : r.Moves l later) : r.diagnostics <:+ later.diagnostics := by
  cases moves with
  | passed | kept => exact suffix_rfl
  | finished => simp only [diagnostics_closeCapture, suffix_rfl]
  | acted _ _ acts =>
    cases acts with
    | reported | skipped | opened => exact suffix_append _ _
    | packaged | imported | closed | captured => exact suffix_rfl
    | declared | signed => simp [addMember_frame]

theorem suffix_foldl (ls : List SourceLine) : ∀ r : Reader, r.diagnostics <:+ (ls.foldl step r).diagnostics := by
  induction ls with
  | nil => exact fun _ => suffix_rfl
  | cons l ls ih => exact fun r => (moves_step r l).suffix.trans (ih _)

/-- Nothing is left open at the end of a file without reports. -/
theorem finish_eq (clean : r.finish.diagnostics = []) :
    r.finish = r ∧ r.type = none ∧ ∀ c, r.capture = some c → c.function = none := by
  rcases finish_cases r with ⟨same, absent⟩ | ⟨c, f, _, _, same⟩
  · cases type : r.type with
    | none => exact ⟨by rw [same, endType, type], rfl, absent⟩
    | some t =>
      rw [same, endType, type] at clean
      cases clean
  · have reported := suffix_endType ((r.report f.line ("missing end for function " ++ f.name)).closeCapture c)
    rw [← same, clean, diagnostics_closeCapture] at reported
    cases suffix_nil.mp reported

/-- The lines before a body are laid out, and the lines of the body so far are captured. -/
inductive Accounts (r : Reader) : List SourceLine → Prop where
  | idle {ls : List SourceLine} : r.capture = none → LaidOut r.path ls r.layout → Accounts r ls
  | busy {ls : List SourceLine} {l : SourceLine} {c : Capture} {f : Function} : r.capture = some c →
      c.function = some f → LaidOut r.path ls r.layout → r.inInterface = false → l.isGap = false →
      l.memberWord = "function" → f.line = l.number → c.Counts → Accounts r (ls ++ l :: c.lines.reverse)

theorem Accounts.laidOut (accounts : r.Accounts ls) (absent : ∀ c, r.capture = some c → c.function = none) :
    LaidOut r.path ls r.layout := by
  cases accounts with
  | idle _ laid => exact laid
  | busy busy function => cases function.symm.trans (absent _ busy)

theorem accounts_addMember (idle : r.capture = none) {lines : List SourceLine} {m : Member}
    (laid : LaidOut r.path ls r.layout) (fits : MemberLines r.path r.inInterface lines m) :
    (r.addMember m).Accounts (ls ++ lines) := by
  obtain ⟨path, _, capture, _⟩ := addMember_frame r m
  refine .idle (capture.trans idle) ?_
  rw [path, layout_addMember]
  exact .member laid fits

theorem Accounts.moves (accounts : r.Accounts ls) (moves : r.Moves l later) (quiet : later.diagnostics = []) :
    later.Accounts (ls ++ [l]) := by
  cases moves with
  | passed doc idle gap => exact .idle idle (.line (accounts.laidOut (by simp [idle])) (.gap gap))
  | @kept c depth busy next =>
    cases accounts with
    | idle idle => cases idle.symm.trans busy
    | @busy ls first _ f same function laid outside solid word line counts =>
      obtain rfl := Option.some.inj (busy.symm.trans same)
      have lines : ls ++ first :: c.lines.reverse ++ [l] = ls ++ first :: (l :: c.lines).reverse := by simp
      rw [lines]
      exact @Accounts.busy _ _ first ⟨c.function, depth, l :: c.lines⟩ f rfl function laid outside solid word line
        (counts.next next)
  | @finished c busy zero closes =>
    cases accounts with
    | idle idle => cases idle.symm.trans busy
    | @busy ls first _ f same function laid outside solid word line counts =>
      obtain rfl := Option.some.inj (busy.symm.trans same)
      rw [closeCapture, function, append_assoc, cons_append]
      have closed := length_eq_zero_iff.mp (counts.depth.symm.trans zero)
      exact accounts_addMember rfl laid (.function outside solid word line (by rw [line]) counts.matched closed closes)
  | acted idle solid acts =>
    have laid := accounts.laidOut (by simp [idle])
    cases acts with
    | reported _ reported | skipped _ _ reported => exact absurd (append_eq_nil_iff.mp quiet).1 reported
    | packaged closed word first =>
      have reads := Layout.Reads.package (s := r.layout) solid word closed (by simpa [layout] using first)
      exact .idle idle (.line laid (by simpa only [layout] using reads))
    | imported closed word =>
      have reads := Layout.Reads.imported (s := r.layout) solid word closed
      exact .idle idle (.line laid (by simpa [layout] using reads))
    | opened closed _ word line empty => exact .idle idle (.line laid (.header solid word closed line empty))
    | closed type ends =>
      have reads := Layout.Reads.close (s := r.layout) solid ends type
      exact .idle idle (.line laid (by simpa [layout, closeType] using reads))
    | declared word line => exact accounts_addMember (r := { r with doc := [] }) idle laid (.variable solid word line)
    | signed inside word line bare =>
      exact accounts_addMember (r := { r with doc := [] }) idle laid (.signature inside solid word line bare)
    | @captured f outside word line =>
      have counts : ({ function := some f } : Capture).Counts := ⟨matched_nil, rfl⟩
      exact .busy (r := { r with doc := [], capture := some { function := some f } }) rfl rfl laid outside solid word
        line counts

theorem Accounts.foldl (more : List SourceLine) : ∀ {r : Reader} {ls : List SourceLine}, r.Accounts ls →
    (more.foldl step r).diagnostics = [] → (more.foldl step r).Accounts (ls ++ more) := by
  induction more with
  | nil =>
    intro r ls accounts _
    rwa [append_nil]
  | cons l more ih =>
    intro r ls accounts quiet
    have next := accounts.moves (moves_step r l) (suffix_nil.mp (quiet ▸ suffix_foldl more _))
    simpa using ih next quiet

end Reader

end Declaration

theorem SourceFile.laidOut_parse {path content : Text} (clean : (parse path content).2 = []) :
    ∃ s, Declaration.LaidOut path (sourceLines content) s ∧ s.type = none ∧
      (parse path content).1.package = some ⟨s.line, s.name, s.imports, s.decls⟩ := by
  have quiet := reverse_eq_nil_iff.mp clean
  obtain ⟨same, closed, absent⟩ := finish_eq quiet
  rw [same] at quiet
  have start : ({ path } : Declaration.Reader).Accounts [] := .idle rfl .nil
  have tidy : ({ path } : Declaration.Reader).Tidy path (fun _ => True) := by
    constructor <;> simp [held]
  have laid := (start.foldl _ quiet).laidOut absent
  rw [nil_append, (tidy.foldl _).path] at laid
  exact ⟨_, laid, closed, by rw [parse, same]; rfl⟩

def loopText : Text :=
  "package p\n\n/// Loops.\nclass A\n  var n\n  function f()\n    while n\n    end // loop\n  end\nend\nconst one = 1\n"

theorem SourceFile.laidOut_parse_loopText : ∃ s, Declaration.LaidOut "/a.kn" (sourceLines loopText) s ∧
    s.name = "p" ∧ s.decls.map Decl.name = ["A", "one"] := by
  obtain ⟨s, laid, _, read⟩ := @laidOut_parse "/a.kn" loopText (by decide +kernel)
  have name : (parse "/a.kn" loopText).1.package.map Package.name = some ("p" : Text) := by decide +kernel
  have names : (parse "/a.kn" loopText).1.decls.map Decl.name = ["A", "one"] := by decide +kernel
  rw [read] at name
  rw [decls, read] at names
  exact ⟨s, laid, Option.some.inj name, names⟩

end ScriptBuild
