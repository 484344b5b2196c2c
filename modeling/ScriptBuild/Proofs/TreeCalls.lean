import ScriptBuild.Proofs.DependencyLedger

/-! Calls for trees that overlap. -/

namespace ScriptBuild

open List Option Workspace CompilationUnit

/-- How far a call for a tree has come. -/
inductive CallPhase where
  | captured
  | waiting
  | returned (r : SyntaxResult)
  | canceled

/-- A call for the tree of a unit, with the version and the request that it found there. -/
structure TreeCall where
  unit : UnitId
  version : Nat
  request : Nat
  phase : CallPhase := .captured

/-- A request for the tree of a version of a unit. Whoever has it gets the same result. -/
structure TreeRequest where
  unit : UnitId
  version : Nat
  cell : SyntaxCell := .idle

/-- A parse that goes on, and the request that gets its result. -/
structure ParseTask where
  unit : UnitId
  version : Nat
  request : Nat

/-- A workspace and the calls for trees of its units. -/
structure Exchange where
  workspace : Workspace
  /-- Every request there ever was, by its number. -/
  requests : List TreeRequest := []
  /-- The request that each unit has now. -/
  current : List Nat := []
  tasks : List ParseTask := []
  /-- The versions of units whose parse was started. -/
  started : List (UnitId × Nat) := []
  calls : List TreeCall := []

inductive TreeAction where
  /-- Somebody asks for the unit at a path. -/
  | request (p : ProjectId) (path : Text)
  | capture (id : UnitId)
  | start (call : Nat)
  /-- The file is read, and the parse ends. -/
  | finish (task : Nat) (d : Disk)
  | receive (call : Nat)
  | giveUp (call : Nat)
  | invalidate (id : UnitId)
  | record (id : UnitId) (version : Nat) (dependencies : List UnitId) (diagnostics : List Diagnostic)

/-- Starts the parse of a version of a unit, which is left to end later. -/
def Workspace.launch (w : Workspace) (id : UnitId) (version : Nat) : Workspace :=
  { w.update id (CompilationUnit.withCell version .started) with waiting := w.waiting ++ [(id, version)] }

namespace Exchange

variable {e later : Exchange} {phase : CallPhase} {cell : SyntaxCell} {version s : Nat} {t : ParseTask}

def fresh (projects : List ProjectConfig) (bodies : BodyCache) : Exchange :=
  { workspace := Workspace.fresh projects bodies }

def request? (e : Exchange) (r : Nat) : Option TreeRequest := e.requests[r]?

def withPhase (e : Exchange) (k : Nat) (phase : CallPhase) : Exchange :=
  { e with calls := e.calls.modify k fun c => { c with phase } }

def withCell (e : Exchange) (r : Nat) (cell : SyntaxCell) : Exchange :=
  { e with requests := e.requests.modify r fun q => { q with cell } }

def launched (e : Exchange) (c : TreeCall) : Exchange :=
  { e.withCell c.request .started with
    workspace := e.workspace.launch c.unit c.version
    tasks := e.tasks ++ [⟨c.unit, c.version, c.request⟩]
    started := e.started ++ [(c.unit, c.version)] }

/-- A parse ends: its request has the result, and so has the unit unless it has moved on. -/
def finished (e : Exchange) (k : Nat) (t : ParseTask) (u : CompilationUnit) (d : Disk) : Exchange :=
  { e.withCell t.request (.finished (Workspace.parseUnit d u t.version).1) with
    workspace :=
      { e.workspace.finishParse d t.unit t.version with waiting := e.workspace.waiting.eraseIdx k }
    tasks := e.tasks.eraseIdx k }

def renewed (e : Exchange) (id : UnitId) (version : Nat) : Exchange :=
  { e with
    workspace := e.workspace.update id CompilationUnit.invalidated
    requests := e.requests ++ [{ unit := id, version }]
    current := e.current.set id e.requests.length }

/-- What one of the calls, the parses and the others does next. -/
inductive Step : Exchange → TreeAction → Exchange → Prop where
  | find {e : Exchange} {p : ProjectId} {path : Text} :
      (e.workspace.lookup p path).isSome ∨ e.workspace.describe p path = none →
      Step e (.request p path) { e with workspace := (e.workspace.request p path).2 }
  | make {e : Exchange} {p : ProjectId} {path : Text} {spec : UnitSpec} :
      e.workspace.lookup p path = none → e.workspace.describe p path = some spec →
      Step e (.request p path)
        { e with
          workspace := (e.workspace.request p path).2
          requests := e.requests ++ [{ unit := e.workspace.pool.length, version := 0 }]
          current := e.current ++ [e.requests.length] }
  | capture {e : Exchange} {id : UnitId} {u : CompilationUnit} {r : Nat} :
      e.workspace.unit? id = some u → e.current[id]? = some r →
      Step e (.capture id) { e with calls := e.calls ++ [{ unit := id, version := u.version, request := r }] }
  | launch {e : Exchange} {k : Nat} {c : TreeCall} {q : TreeRequest} :
      e.calls[k]? = some c → c.phase = .captured → e.request? c.request = some q → q.cell = .idle →
      Step e (.start k) ((e.launched c).withPhase k .waiting)
  | join {e : Exchange} {k : Nat} {c : TreeCall} {q : TreeRequest} :
      e.calls[k]? = some c → c.phase = .captured → e.request? c.request = some q → q.cell ≠ .idle →
      Step e (.start k) (e.withPhase k .waiting)
  | finish {e : Exchange} {k : Nat} {t : ParseTask} {u : CompilationUnit} {d : Disk} :
      e.tasks[k]? = some t → e.workspace.unit? t.unit = some u →
      Step e (.finish k d) (e.finished k t u d)
  | receive {e : Exchange} {k : Nat} {c : TreeCall} {q : TreeRequest} {r : SyntaxResult} :
      e.calls[k]? = some c → c.phase = .waiting → e.request? c.request = some q → q.cell = .finished r →
      Step e (.receive k) (e.withPhase k (.returned r))
  | giveUp {e : Exchange} {k : Nat} {c : TreeCall} : e.calls[k]? = some c → c.phase = .waiting →
      Step e (.giveUp k) (e.withPhase k .canceled)
  | invalidate {e : Exchange} {id : UnitId} {u : CompilationUnit} : e.workspace.unit? id = some u →
      Step e (.invalidate id) (e.renewed id (u.version + 1))
  | record {e : Exchange} {id : UnitId} {version : Nat} {ds : List UnitId} {xs : List Diagnostic} :
      Step e (.record id version ds xs) { e with workspace := e.workspace.setDependencies id version ds xs }

/-- Some actions one after another, by whomever. -/
inductive Run (e : Exchange) : List TreeAction → Exchange → Prop where
  | nil : Run e [] e
  | snoc {actions : List TreeAction} {a : TreeAction} {now later : Exchange} :
      Run e actions now → Step now a later → Run e (actions ++ [a]) later

/-- What a call can be sure of, by how far it has come. -/
def Fits : CallPhase → SyntaxCell → Prop
  | .captured, _ => True
  | .waiting, cell => cell ≠ .idle
  | .returned r, cell => cell = .finished r
  | .canceled, _ => True

/-- What holds between the calls, the requests and the parses. -/
structure Orderly (e : Exchange) : Prop where
  unique : ∀ {r s q q'}, e.request? r = some q → e.request? s = some q' → q.unit = q'.unit →
    q.version = q'.version → r = s
  result : ∀ {r q x}, e.request? r = some q → q.cell = .finished x → x.version = q.version
  call : ∀ c ∈ e.calls, ∃ q, e.request? c.request = some q ∧ q.unit = c.unit ∧ q.version = c.version ∧
    Fits c.phase q.cell
  task : ∀ t ∈ e.tasks, e.request? t.request = some ⟨t.unit, t.version, .started⟩
  apart : (e.tasks.map (·.request)).Nodup
  served : ∀ {r q}, e.request? r = some q → q.cell = .started → ∃ t ∈ e.tasks, t.request = r
  once : e.started.Nodup
  begun : ∀ {x}, x ∈ e.started ↔ ∃ r q, e.request? r = some q ∧ (q.unit, q.version) = x ∧ q.cell ≠ .idle

/-- Besides, every unit has the request of its version, and no request is ahead of its unit. -/
structure Valid (e : Exchange) : Prop extends Orderly e where
  size : e.current.length = e.workspace.pool.length
  current : ∀ {id u r}, e.workspace.unit? id = some u → e.current[id]? = some r →
    e.request? r = some ⟨id, u.version, u.cell⟩
  bound : ∀ {r q}, e.request? r = some q → ∃ u, e.workspace.unit? q.unit = some u ∧ q.version ≤ u.version
  waiting : e.workspace.waiting = e.tasks.map fun t => (t.unit, t.version)

theorem valid_fresh (projects : List ProjectConfig) (bodies : BodyCache) : (fresh projects bodies).Valid := by
  refine ⟨⟨?_, ?_, ?_, ?_, nodup_nil, ?_, nodup_nil, ?_⟩, rfl, ?_, ?_, rfl⟩ <;>
    simp [fresh, request?]

/-- The state of a request may change until there is a result. -/
def Advances (cell next : SyntaxCell) : Prop :=
  next = cell ∨ cell = .idle ∨ (cell = .started ∧ next ≠ .idle)

theorem Fits.advances {next : SyntaxCell} (fits : Fits phase cell) (forward : Advances cell next) :
    Fits phase next := by
  rcases forward with rfl | rfl | ⟨rfl, busy⟩
  · exact fits
  · cases phase with
    | captured | canceled => trivial
    | waiting => exact absurd rfl fits
    | returned r => cases fits
  · cases phase with
    | captured => trivial
    | waiting => exact busy
    | returned r => cases fits
    | canceled => trivial

theorem getElem?_concat_eq_some {α : Type} {l : List α} {a x : α} {k : Nat} :
    (l ++ [a])[k]? = some x ↔ l[k]? = some x ∨ (k = l.length ∧ x = a) := by
  rw [getElem?_append]
  split
  · exact ⟨.inl, fun either => either.resolve_right fun ⟨last, _⟩ => by omega⟩
  · rename_i outside
    rw [getElem?_eq_none (Nat.le_of_not_lt outside), getElem?_singleton]
    constructor
    · intro found
      split at found
      · exact .inr ⟨by omega, (some.inj found).symm⟩
      · cases found
    · rintro (absent | ⟨rfl, rfl⟩)
      · cases absent
      · simp

section Requests

variable {r : Nat} {q : TreeRequest}

/-- The requests are those from before, apart from the state of one of them. -/
theorem request?_withCell_eq_some {x : TreeRequest} (found : e.request? r = some q) :
    (e.withCell r cell).request? s = some x ↔ (r = s ∧ x = { q with cell }) ∨ (r ≠ s ∧ e.request? s = some x) := by
  rw [request?, withCell, getElem?_modify]
  by_cases here : r = s
  · subst here
    rw [← request?, found]
    simp [eq_comm]
  · simp [here, request?]

theorem exists_request?_of_withCell (found : (e.withCell r cell).request? s = some q) :
    ∃ old, e.request? s = some old ∧ q.unit = old.unit ∧ q.version = old.version := by
  rw [request?, withCell, getElem?_modify] at found
  obtain ⟨old, before, rfl⟩ := map_eq_some_iff.mp found
  exact ⟨old, before, by split <;> exact ⟨rfl, rfl⟩⟩

theorem Orderly.unique_withCell (orderly : e.Orderly) {s' : Nat} {q' : TreeRequest}
    (first : (e.withCell r cell).request? s = some q) (second : (e.withCell r cell).request? s' = some q')
    (unit : q.unit = q'.unit) (version : q.version = q'.version) : s = s' := by
  obtain ⟨x, before, ownUnit, ownVersion⟩ := exists_request?_of_withCell first
  obtain ⟨y, other, otherUnit, otherVersion⟩ := exists_request?_of_withCell second
  rw [ownUnit, otherUnit] at unit
  rw [ownVersion, otherVersion] at version
  exact orderly.unique before other unit version

theorem Orderly.call_withCell (orderly : e.Orderly) (found : e.request? r = some q)
    (forward : Advances q.cell cell) : ∀ c ∈ e.calls, ∃ q, (e.withCell r cell).request? c.request = some q ∧
      q.unit = c.unit ∧ q.version = c.version ∧ Fits c.phase q.cell := by
  intro c mem
  obtain ⟨x, asked, unit, version, fits⟩ := orderly.call c mem
  by_cases here : r = c.request
  · obtain rfl := mem_unique (here ▸ found) asked
    exact ⟨_, (request?_withCell_eq_some found).mpr (.inl ⟨here, rfl⟩), unit, version, fits.advances forward⟩
  · exact ⟨x, (request?_withCell_eq_some found).mpr (.inr ⟨here, asked⟩), unit, version, fits⟩

end Requests

namespace Orderly

variable {k : Nat} {c : TreeCall} {q : TreeRequest} (orderly : e.Orderly)

include orderly

/-- The units have no part in this. -/
theorem withWorkspace (workspace : Workspace) (current : List Nat) : Orderly { e with workspace, current } :=
  ⟨orderly.unique, orderly.result, orderly.call, orderly.task, orderly.apart, orderly.served, orderly.once,
    orderly.begun⟩

/-- A further request, for a version of a unit for which there was none. -/
theorem extend {id : UnitId} (new : ∀ {r q}, e.request? r = some q → q.unit = id → q.version ≠ version)
    (requests : List TreeRequest) (grown : requests = e.requests ++ [{ unit := id, version }]) :
    Orderly { e with requests } := by
  subst grown
  refine ⟨fun first second unit same => ?_, fun found done => ?_, fun c mem => ?_, fun t mem => ?_,
    orderly.apart, fun found busy => ?_, orderly.once, ?_⟩
  · rcases getElem?_concat_eq_some.mp first with old | ⟨rfl, rfl⟩ <;>
      rcases getElem?_concat_eq_some.mp second with known | ⟨rfl, rfl⟩
    · exact orderly.unique old known unit same
    · exact absurd same (new old unit)
    · exact absurd same.symm (new known unit.symm)
    · rfl
  · rcases getElem?_concat_eq_some.mp found with old | ⟨_, rfl⟩
    · exact orderly.result old done
    · cases done
  · obtain ⟨q, found, rest⟩ := orderly.call c mem
    exact ⟨q, getElem?_concat_eq_some.mpr (.inl found), rest⟩
  · exact getElem?_concat_eq_some.mpr (.inl (orderly.task t mem))
  · rcases getElem?_concat_eq_some.mp found with old | ⟨_, rfl⟩
    · exact orderly.served old busy
    · cases busy
  · intro x
    rw [orderly.begun]
    constructor
    · rintro ⟨r, q, found, rest⟩
      exact ⟨r, q, getElem?_concat_eq_some.mpr (.inl found), rest⟩
    · rintro ⟨r, q, found, tag, busy⟩
      rcases getElem?_concat_eq_some.mp found with old | ⟨_, rfl⟩
      · exact ⟨r, q, old, tag, busy⟩
      · exact absurd rfl busy

theorem capture (found : e.request? c.request = some q)
    (unit : q.unit = c.unit) (version : q.version = c.version) (phase : c.phase = .captured) :
    Orderly { e with calls := e.calls ++ [c] } := by
  refine ⟨orderly.unique, orderly.result, fun x mem => ?_, orderly.task, orderly.apart, orderly.served,
    orderly.once, orderly.begun⟩
  rcases mem_append.mp mem with old | new
  · exact orderly.call x old
  · rw [mem_singleton.mp new, phase]
    exact ⟨q, found, unit, version, trivial⟩

theorem withPhase (called : e.calls[k]? = some c) (found : e.request? c.request = some q)
    (fits : Fits phase q.cell) : (e.withPhase k phase).Orderly := by
  refine ⟨orderly.unique, orderly.result, fun x mem => ?_, orderly.task, orderly.apart, orderly.served,
    orderly.once, orderly.begun⟩
  obtain ⟨j, at'⟩ := mem_iff_getElem?.mp mem
  rw [Exchange.withPhase, getElem?_modify] at at'
  obtain ⟨old, before, rfl⟩ := map_eq_some_iff.mp at'
  obtain ⟨q', asked, unit, version, fitted⟩ := orderly.call old (mem_of_getElem? before)
  split
  · rename_i here
    obtain rfl := mem_unique (here ▸ called) before
    obtain rfl := mem_unique found asked
    exact ⟨q, found, unit, version, fits⟩
  · exact ⟨q', asked, unit, version, fitted⟩

/-- The first call that has a request starts its parse. -/
theorem launched (mem : c ∈ e.calls) (found : e.request? c.request = some q)
    (idle : q.cell = .idle) : (e.launched c).Orderly := by
  obtain ⟨x, asked, unit, version, _⟩ := orderly.call c mem
  obtain rfl := mem_unique found asked
  have known : ∀ {s x}, (e.launched c).request? s = some x ↔
      (c.request = s ∧ x = ⟨c.unit, c.version, .started⟩) ∨ (c.request ≠ s ∧ e.request? s = some x) := by
    rw [← unit, ← version]
    exact request?_withCell_eq_some found
  have free : ∀ t ∈ e.tasks, c.request ≠ t.request := fun t inside same => by
    rw [mem_unique found (same ▸ orderly.task t inside)] at idle
    cases idle
  have unstarted : (c.unit, c.version) ∉ e.started := fun again => by
    obtain ⟨r, y, known, tag, busy⟩ := orderly.begun.mp again
    obtain ⟨unit', version'⟩ := Prod.mk.inj tag
    obtain rfl := orderly.unique known found (unit'.trans unit.symm) (version'.trans version.symm)
    exact busy (mem_unique known found ▸ idle)
  refine ⟨fun first second => orderly.unique_withCell first second, fun asked done => ?_,
    orderly.call_withCell found (.inr (.inl idle)), fun t inside => ?_, ?_, fun asked busy => ?_, ?_, ?_⟩
  · rcases known.mp asked with ⟨_, rfl⟩ | ⟨_, old⟩
    · cases done
    · exact orderly.result old done
  · rcases mem_append.mp inside with old | new
    · exact known.mpr (.inr ⟨free t old, orderly.task t old⟩)
    · rw [mem_singleton.mp new]
      exact known.mpr (.inl ⟨rfl, rfl⟩)
  · rw [Exchange.launched, map_append, nodup_append_comm]
    refine nodup_cons.mpr ⟨fun taken => ?_, orderly.apart⟩
    obtain ⟨t, inside, same⟩ := mem_map.mp taken
    exact free t inside same.symm
  · rcases known.mp asked with ⟨own, _⟩ | ⟨_, old⟩
    · exact ⟨_, mem_append_right _ (mem_singleton.mpr rfl), own⟩
    · obtain ⟨t, inside, same⟩ := orderly.served old busy
      exact ⟨t, mem_append_left _ inside, same⟩
  · exact nodup_append_comm.mp (nodup_cons.mpr ⟨unstarted, orderly.once⟩)
  · intro z
    rw [show (e.launched c).started = e.started ++ [(c.unit, c.version)] from rfl, mem_append,
      mem_singleton, orderly.begun]
    constructor
    · rintro (⟨r, y, asked, tag, busy⟩ | rfl)
      · refine ⟨r, y, known.mpr (.inr ⟨?_, asked⟩), tag, busy⟩
        rintro rfl
        exact busy (mem_unique asked found ▸ idle)
      · exact ⟨_, _, known.mpr (.inl ⟨rfl, rfl⟩), rfl, by simp⟩
    · rintro ⟨r, y, asked, tag, busy⟩
      rcases known.mp asked with ⟨_, rfl⟩ | ⟨_, old⟩
      · exact .inr tag.symm
      · exact .inl ⟨r, y, old, tag, busy⟩

/-- The parse of a request ends, and the request has its result. -/
theorem finished (running : e.tasks[k]? = some t) (u : CompilationUnit) (d : Disk) : (e.finished k t u d).Orderly := by
  have found := orderly.task t (mem_of_getElem? running)
  have known : ∀ {s x}, (e.finished k t u d).request? s = some x ↔
      (t.request = s ∧ x = ⟨t.unit, t.version, .finished (parseUnit d u t.version).1⟩) ∨
        (t.request ≠ s ∧ e.request? s = some x) :=
    request?_withCell_eq_some found
  have others : ∀ {s : ParseTask}, s ∈ e.tasks.eraseIdx k → s ∈ e.tasks ∧ t.request ≠ s.request := by
    intro s inside
    obtain ⟨j, other, at'⟩ := mem_eraseIdx_iff_getElem?.mp inside
    refine ⟨mem_of_getElem? at', fun same => other ?_⟩
    have bound := (List.getElem?_eq_some_iff.mp at').1
    refine (getElem?_inj (by rw [length_map]; exact bound) orderly.apart).mp ?_
    rw [getElem?_map, getElem?_map, at', running, map_some, map_some, same]
  refine ⟨fun first second => orderly.unique_withCell first second, fun asked done => ?_,
    orderly.call_withCell found (.inr (.inr ⟨rfl, by simp⟩)), fun s inside => ?_, ?_,
    fun asked busy => ?_, orderly.once, ?_⟩
  · rcases known.mp asked with ⟨_, rfl⟩ | ⟨_, old⟩
    · rw [← SyntaxCell.finished.inj done]
      exact version_parseUnit d u t.version
    · exact orderly.result old done
  · obtain ⟨old, other⟩ := others inside
    exact known.mpr (.inr ⟨other, orderly.task s old⟩)
  · rw [Exchange.finished, ← eraseIdx_map]
    exact orderly.apart.eraseIdx k
  · rcases known.mp asked with ⟨_, rfl⟩ | ⟨other, old⟩
    · cases busy
    · obtain ⟨s, inside, same⟩ := orderly.served old busy
      obtain ⟨j, at'⟩ := mem_iff_getElem?.mp inside
      refine ⟨s, mem_eraseIdx_iff_getElem?.mpr ⟨j, fun last => other ?_, at'⟩, same⟩
      rw [mem_unique running (last ▸ at'), same]
  · intro x
    rw [show (e.finished k t u d).started = e.started from rfl, orderly.begun]
    constructor
    · rintro ⟨r, y, asked, tag, busy⟩
      by_cases own : t.request = r
      · obtain rfl := mem_unique (own ▸ found) asked
        exact ⟨_, _, known.mpr (.inl ⟨own, rfl⟩), tag, by simp⟩
      · exact ⟨r, y, known.mpr (.inr ⟨own, asked⟩), tag, busy⟩
    · rintro ⟨r, y, asked, tag, busy⟩
      rcases known.mp asked with ⟨_, rfl⟩ | ⟨_, old⟩
      · exact ⟨_, _, found, tag, by simp⟩
      · exact ⟨r, y, old, tag, busy⟩

end Orderly

namespace Valid

variable {k r : Nat} {c : TreeCall} {q : TreeRequest} {id : UnitId} {u : CompilationUnit} (valid : e.Valid)

include valid

/-- Every unit has a request. -/
theorem exists_current (found : e.workspace.unit? id = some u) :
    ∃ r, e.current[id]? = some r ∧ e.request? r = some ⟨id, u.version, u.cell⟩ := by
  have inside := lt_length_of_unit? found
  rw [← valid.size] at inside
  have asked := getElem?_eq_getElem inside
  exact ⟨_, asked, valid.current found asked⟩

/-- The units may change in what has nothing to do with their trees. -/
theorem withWorkspace {w : Workspace} (size : w.pool.length = e.workspace.pool.length)
    (same : ∀ {id u}, e.workspace.unit? id = some u →
      ∃ v, w.unit? id = some v ∧ v.version = u.version ∧ v.cell = u.cell)
    (waiting : w.waiting = e.workspace.waiting) : Valid { e with workspace := w } := by
  refine ⟨valid.toOrderly.withWorkspace _ _, valid.size.trans size.symm, fun {id v r} found asked => ?_,
    fun found => ?_, waiting.trans valid.waiting⟩
  · have inside : id < e.workspace.pool.length := size ▸ lt_length_of_unit? found
    have old : e.workspace.unit? id = some _ := getElem?_eq_getElem inside
    obtain ⟨x, now, version, cell⟩ := same old
    rw [show w.unit? id = some v from found] at now
    rw [some.inj now, version, cell]
    exact valid.current old asked
  · obtain ⟨u, old, behind⟩ := valid.bound found
    obtain ⟨v, now, version, _⟩ := same old
    exact ⟨v, now, version ▸ behind⟩

theorem withPhase (called : e.calls[k]? = some c) (found : e.request? c.request = some q)
    (fits : Fits phase q.cell) : (e.withPhase k phase).Valid :=
  ⟨valid.toOrderly.withPhase called found fits, valid.size, valid.current, valid.bound, valid.waiting⟩

theorem capture (found : e.workspace.unit? id = some u) (asked : e.current[id]? = some r) :
    Valid { e with calls := e.calls ++ [{ unit := id, version := u.version, request := r }] } :=
  ⟨valid.toOrderly.capture (valid.current found asked) rfl rfl rfl, valid.size, valid.current, valid.bound,
    valid.waiting⟩

/-- The state of a request is that of its unit, if it is the present one. -/
theorem current_withCell (found : e.request? r = some q) (unit : (e.workspace.update q.unit
    (CompilationUnit.withCell q.version cell)).unit? id = some u) (asked : e.current[id]? = some s) :
    (e.withCell r cell).request? s = some ⟨id, u.version, u.cell⟩ := by
  rw [unit?_update] at unit
  obtain ⟨v, old, rfl⟩ := map_eq_some_iff.mp unit
  have before := valid.current old asked
  rw [request?_withCell_eq_some found]
  by_cases own : r = s
  · rw [mem_unique found (own ▸ before)]
    exact .inl ⟨own, by simp [CompilationUnit.withCell]⟩
  · have kept : (if q.unit = id then v.withCell q.version cell else v) = v := by
      split
      · rename_i here
        refine if_neg fun now => own (valid.unique found before here ?_)
        exact (beq_iff_eq.mp now).symm
      · rfl
    rw [kept]
    exact .inr ⟨own, before⟩

theorem bound_withCell (found : (e.withCell r cell).request? s = some q) :
    ∃ u, (e.workspace.update id (CompilationUnit.withCell version cell)).unit? q.unit = some u ∧
      q.version ≤ u.version := by
  obtain ⟨x, before, unit, same⟩ := exists_request?_of_withCell found
  obtain ⟨u, known, behind⟩ := valid.bound before
  rw [unit, same, unit?_update, known]
  refine ⟨_, rfl, ?_⟩
  split
  · exact Nat.le_trans behind (u.ages_withCell version cell).version
  · exact behind

theorem launched (mem : c ∈ e.calls) (found : e.request? c.request = some q)
    (idle : q.cell = .idle) : (e.launched c).Valid := by
  obtain ⟨x, asked, unit, version, _⟩ := valid.call c mem
  obtain rfl := mem_unique found asked
  refine ⟨valid.toOrderly.launched mem found idle, ?_, fun known => ?_, fun known => valid.bound_withCell known, ?_⟩
  · exact valid.size.trans (length_pool_update _ _ _).symm
  · rw [Exchange.launched, ← unit, ← version] at known
    exact valid.current_withCell found known
  · rw [Exchange.launched, launch, valid.waiting, map_append]
    rfl

theorem finished (running : e.tasks[k]? = some t) (found : e.workspace.unit? t.unit = some u) (d : Disk) :
    (e.finished k t u d).Valid := by
  have task := valid.task t (mem_of_getElem? running)
  have same := finishParse_eq found d t.version
  refine ⟨valid.toOrderly.finished running u d, ?_, fun {id v r} known asked => ?_, fun {r q} known => ?_, ?_⟩
  · rw [Exchange.finished, same]
    exact valid.size.trans (length_pool_update _ _ _).symm
  · rw [Exchange.finished, same] at known
    exact valid.current_withCell task known asked
  · rw [Exchange.finished, same]
    exact valid.bound_withCell known
  · rw [Exchange.finished, valid.waiting, eraseIdx_map]

theorem renewed (found : e.workspace.unit? id = some u) : (e.renewed id (u.version + 1)).Valid := by
  have inside := lt_length_of_unit? found
  have behind : ∀ {r q}, e.request? r = some q → q.unit = id → q.version ≠ u.version + 1 := by
    rintro r q known rfl same
    obtain ⟨v, unit, bound⟩ := valid.bound known
    rw [← mem_unique found unit, same] at bound
    exact absurd bound (Nat.not_succ_le_self _)
  have orderly := (valid.toOrderly.extend behind _ rfl).withWorkspace
  refine ⟨orderly _ _, ?_, fun {j v r} known asked => ?_, fun {r q} known => ?_, valid.waiting⟩
  · rw [Exchange.renewed, length_set, length_pool_update]
    exact valid.size
  · rw [Exchange.renewed] at known asked
    rw [unit?_update] at known
    obtain ⟨x, old, rfl⟩ := map_eq_some_iff.mp known
    rw [getElem?_set] at asked
    by_cases here : id = j
    · subst here
      rw [found] at old
      rw [if_pos rfl, if_pos (valid.size ▸ inside)] at asked
      refine getElem?_concat_eq_some.mpr (.inr ⟨(some.inj asked).symm, ?_⟩)
      rw [if_pos rfl, ← some.inj old]
      rfl
    · rw [if_neg here] at asked
      rw [if_neg here]
      exact getElem?_concat_eq_some.mpr (.inl (valid.current old asked))
  · rw [Exchange.renewed, unit?_update]
    rcases getElem?_concat_eq_some.mp known with old | ⟨_, rfl⟩
    · obtain ⟨v, unit, bound⟩ := valid.bound old
      rw [unit]
      refine ⟨_, rfl, ?_⟩
      split
      · exact Nat.le_succ_of_le bound
      · exact bound
    · rw [found]
      exact ⟨_, rfl, by simp [invalidated]⟩

theorem make {p : ProjectId} {path : Text} {spec : UnitSpec} (absent : e.workspace.lookup p path = none)
    (described : e.workspace.describe p path = some spec) :
    Valid
      { e with
        workspace := (e.workspace.request p path).2
        requests := e.requests ++ [{ unit := e.workspace.pool.length, version := 0 }]
        current := e.current ++ [e.requests.length] } := by
  have opened : (e.workspace.request p path).2 = (e.workspace.owned p).opened p path spec := by
    rcases e.workspace.request_cases p path with ⟨_, found, _⟩ | ⟨_, hidden, _⟩ | ⟨other, _, again, same⟩
    · rw [absent] at found
      cases found
    · rw [described] at hidden
      cases hidden
    · rw [described] at again
      rw [same, some.inj again]
  have new : ∀ {r q}, e.request? r = some q → q.unit = e.workspace.pool.length → q.version ≠ 0 := by
    intro r q known here
    obtain ⟨v, unit, _⟩ := valid.bound known
    exact absurd (here ▸ lt_length_of_unit? unit) (Nat.lt_irrefl _)
  have orderly := (valid.toOrderly.extend new _ rfl).withWorkspace
  rw [opened]
  refine ⟨orderly _ _, ?_, fun {j v r} known asked => ?_, fun {r q} known => ?_, valid.waiting⟩
  · simpa [Workspace.opened, owned] using valid.size
  · rw [unit?_opened] at known
    change (if j = e.workspace.pool.length then _ else e.workspace.unit? j) = some v at known
    rcases getElem?_concat_eq_some.mp asked with old | ⟨last, rfl⟩
    · have inside := (List.getElem?_eq_some_iff.mp old).1
      rw [valid.size] at inside
      rw [if_neg (Nat.ne_of_lt inside)] at known
      exact getElem?_concat_eq_some.mpr (.inl (valid.current known old))
    · rw [valid.size] at last
      rw [if_pos last] at known
      refine getElem?_concat_eq_some.mpr (.inr ⟨rfl, ?_⟩)
      rw [← some.inj known, last]
  · rcases getElem?_concat_eq_some.mp known with old | ⟨_, rfl⟩
    · obtain ⟨v, unit, bound⟩ := valid.bound old
      obtain ⟨x, later, kept⟩ := (Grows.opened (e.workspace.owned p) p path spec).unit unit
      exact ⟨x, later, kept.version ▸ bound⟩
    · exact ⟨_, by rw [unit?_opened]; exact if_pos rfl, Nat.zero_le _⟩

/-- Whatever happens next, the exchange stays in order. -/
theorem step {a : TreeAction} (step : Step e a later) : later.Valid := by
  cases step with
  | @find p path known =>
    have owned : (e.workspace.request p path).2 = e.workspace.owned p := by
      rcases e.workspace.request_cases p path with ⟨_, _, same⟩ | ⟨_, _, same⟩ | ⟨spec, absent, described, _⟩
      · rw [same]
      · rw [same]
      · rw [absent, described] at known
        simp at known
    rw [owned]
    exact valid.withWorkspace rfl (fun found => ⟨_, found, rfl, rfl⟩) rfl
  | make absent described => exact valid.make absent described
  | capture found asked => exact valid.capture found asked
  | launch called _ found idle =>
    have next := valid.launched (mem_of_getElem? called) found idle
    exact next.withPhase called ((request?_withCell_eq_some found).mpr (.inl ⟨rfl, rfl⟩)) (by simp [Fits])
  | join called _ found busy => exact valid.withPhase called found busy
  | finish running found => exact valid.finished running found _
  | receive called _ found done => exact valid.withPhase called found done
  | giveUp called _ =>
    obtain ⟨q, found, _⟩ := valid.call _ (mem_of_getElem? called)
    exact valid.withPhase called found trivial
  | invalidate found => exact valid.renewed found
  | @record id version ds xs =>
    refine valid.withWorkspace (by simp) (fun found => ?_) ?_
    · obtain ⟨x, next, version, cell, _⟩ := exists_unit?_setDependencies found id version ds xs
      exact ⟨x, next, version, cell⟩
    · unfold setDependencies
      split
      · rfl
      · split <;> rfl

theorem run {actions : List TreeAction} (run : Run e actions later) : later.Valid := by
  induction run with
  | nil => exact valid
  | snoc _ next ih => exact ih.step next

end Valid

end Exchange

end ScriptBuild
