import ScriptBuild.Proofs.Reachable
import ScriptBuild.Proofs.TreeCalls

/-! What overlapping calls for trees can be sure of. -/

namespace ScriptBuild

open List Option Workspace CompilationUnit

namespace Exchange

variable {e now later : Exchange} {a : TreeAction} {actions : List TreeAction} {k : Nat} {c : TreeCall} {id : UnitId}
  {u : CompilationUnit}

theorem Step.version_le (step : Step e a later) (found : e.workspace.unit? id = some u) :
    ∃ v, later.workspace.unit? id = some v ∧ u.version ≤ v.version := by
  have aged : ∀ {w x : Workspace}, e.workspace.Ages w → x.pool = w.pool →
      ∃ v, x.unit? id = some v ∧ u.version ≤ v.version := by
    intro w x older same
    obtain ⟨v, unit, age⟩ := older.unit found
    exact ⟨v, by rw [unit?, same]; exact unit, age.version⟩
  cases step with
  | find | make => exact ⟨u, unit?_request found, Nat.le_refl _⟩
  | capture | join | receive | giveUp => exact ⟨u, found, Nat.le_refl _⟩
  | launch _ _ _ _ => exact aged (.update (fun v => v.ages_withCell _ .started) _ _) rfl
  | finish _ _ => exact aged (.finishParse _ _ _ _) rfl
  | invalidate _ => exact aged (.update ages_invalidated _ _) rfl
  | record =>
    obtain ⟨v, unit, version, _⟩ := exists_unit?_setDependencies found _ _ _ _
    exact ⟨v, unit, Nat.le_of_eq version.symm⟩

theorem getElem?_withPhase (e : Exchange) (k : Nat) (phase : CallPhase) (j : Nat) :
    (e.withPhase k phase).calls[j]? = (e.calls[j]?).map fun c => if k = j then { c with phase } else c :=
  getElem?_modify _ _ _ _

/-- A call keeps its unit and its version, and a new one has the present version. -/
theorem Step.of_call (step : Step e a later) (called : later.calls[k]? = some c) :
    (∃ x, e.calls[k]? = some x ∧ c.unit = x.unit ∧ c.version = x.version) ∨
      (k = e.calls.length ∧ ∃ u, e.workspace.unit? c.unit = some u ∧ c.version = u.version) := by
  have phase : ∀ {now : Exchange} {j : Nat} {p : CallPhase}, now.calls = e.calls →
      (now.withPhase j p).calls[k]? = some c →
      ∃ x, e.calls[k]? = some x ∧ c.unit = x.unit ∧ c.version = x.version := by
    intro now j p same found
    rw [getElem?_withPhase, same] at found
    obtain ⟨x, old, rfl⟩ := map_eq_some_iff.mp found
    refine ⟨x, old, ?_⟩
    split <;> exact ⟨rfl, rfl⟩
  cases step with
  | capture found _ =>
    rcases getElem?_concat_eq_some.mp called with old | ⟨last, rfl⟩
    · exact .inl ⟨c, old, rfl, rfl⟩
    · exact .inr ⟨last, _, found, rfl⟩
  | launch | join | receive | giveUp => exact .inl (phase rfl called)
  | find | make | finish | invalidate | record => exact .inl ⟨c, called, rfl, rfl⟩

theorem Run.version_le (run : Run e actions later) (found : e.workspace.unit? id = some u) :
    ∃ v, later.workspace.unit? id = some v ∧ u.version ≤ v.version := by
  induction run with
  | nil => exact ⟨u, found, Nat.le_refl _⟩
  | snoc _ step ih =>
    obtain ⟨v, unit, behind⟩ := ih
    obtain ⟨x, next, older⟩ := step.version_le unit
    exact ⟨x, next, Nat.le_trans behind older⟩

/-- A call that comes later is for no earlier version. -/
theorem Run.version_le_call (run : Run e actions later) (new : e.calls.length ≤ k) (called : later.calls[k]? = some c)
    (found : e.workspace.unit? c.unit = some u) : u.version ≤ c.version := by
  induction run generalizing c with
  | nil =>
    rw [getElem?_eq_none new] at called
    cases called
  | snoc before step ih =>
    rcases step.of_call called with ⟨x, old, unit, version⟩ | ⟨_, v, unit, version⟩
    · rw [version]
      exact ih old (unit ▸ found)
    · obtain ⟨x, later, behind⟩ := before.version_le found
      rw [version, mem_unique unit later]
      exact behind

theorem modify_concat {α : Type} {l : List α} (inside : k < l.length) (f : α → α) (a : α) :
    (l ++ [a]).modify k f = l.modify k f ++ [a] := by
  induction l generalizing k with
  | nil => cases inside
  | cons x l ih =>
    cases k with
    | zero => rfl
    | succ k => exact congrArg (x :: ·) (ih (Nat.lt_of_succ_lt_succ inside))

theorem withPhase_comm (e : Exchange) {j k : Nat} (other : j ≠ k) (p q : CallPhase) :
    (e.withPhase j p).withPhase k q = (e.withPhase k q).withPhase j p := by
  simp [withPhase, modify_modify_ne _ _ _ other]

/-- Nobody notices that a call which has given up goes on to wait. -/
theorem Step.withPhase (step : Step e a later) (called : e.calls[k]? = some c) (ended : c.phase = .canceled) :
    Step (e.withPhase k .waiting) a (later.withPhase k .waiting) ∧ later.calls[k]? = some c := by
  have apart : ∀ (now : Exchange) {j : Nat} {x : TreeCall} {p : CallPhase}, e.calls[j]? = some x →
      x.phase ≠ .canceled → now.calls = e.calls → (e.withPhase k .waiting).calls[j]? = some x ∧
        (now.withPhase j p).withPhase k .waiting = (now.withPhase k .waiting).withPhase j p ∧
        (now.withPhase j p).calls[k]? = some c := by
    intro now j x p found active kept
    have other : j ≠ k := by
      rintro rfl
      exact active (mem_unique called found ▸ ended)
    refine ⟨by rw [getElem?_withPhase, found]; simp [symm other], withPhase_comm _ other _ _, ?_⟩
    rw [getElem?_withPhase, kept, called]
    simp [other]
  cases step with
  | find known => exact ⟨.find known, called⟩
  | make absent described => exact ⟨.make absent described, called⟩
  | capture found asked =>
    have inside := (List.getElem?_eq_some_iff.mp called).1
    refine ⟨?_, getElem?_concat_eq_some.mpr (.inl called)⟩
    simp only [withPhase, modify_concat inside]
    exact capture found asked
  | launch found phase asked idle =>
    obtain ⟨there, moved, still⟩ := apart (e.launched _) found (by simp [phase]) rfl
    exact ⟨moved ▸ .launch there phase asked idle, still⟩
  | join found phase asked busy =>
    obtain ⟨there, moved, still⟩ := apart e found (by simp [phase]) rfl
    exact ⟨moved ▸ .join there phase asked busy, still⟩
  | finish running found => exact ⟨.finish running found, called⟩
  | receive found phase asked done =>
    obtain ⟨there, moved, still⟩ := apart e found (by simp [phase]) rfl
    exact ⟨moved ▸ .receive there phase asked done, still⟩
  | giveUp found phase =>
    obtain ⟨there, moved, still⟩ := apart e found (by simp [phase]) rfl
    exact ⟨moved ▸ .giveUp there phase, still⟩
  | invalidate found => exact ⟨.invalidate found, called⟩
  | record => exact ⟨.record, called⟩

theorem Run.withPhase (run : Run e actions later) (called : e.calls[k]? = some c) (ended : c.phase = .canceled) :
    Run (e.withPhase k .waiting) actions (later.withPhase k .waiting) ∧ later.calls[k]? = some c := by
  induction run with
  | nil => exact ⟨.nil, called⟩
  | snoc _ step ih =>
    obtain ⟨before, still⟩ := ih
    obtain ⟨next, kept⟩ := step.withPhase still ended
    exact ⟨before.snoc next, kept⟩

theorem Run.trans {others : List TreeAction} (first : Run e actions now) (second : Run now others later) :
    Run e (actions ++ others) later := by
  induction second with
  | nil => rwa [append_nil]
  | snoc _ step ih =>
    rw [← append_assoc]
    exact ih.snoc step

theorem Run.cons (step : Step e a now) (rest : Run now actions later) : Run e (a :: actions) later :=
  (Run.nil.snoc step).trans rest

/-- Units that are invalidated together are so one after another. -/
theorem exists_run_invalidateAll (ids : List UnitId) : ∀ {e : Exchange}, (∀ id ∈ ids, id < e.workspace.pool.length) →
      ∃ later, Run e (ids.map .invalidate) later ∧ later.workspace = e.workspace.invalidateAll ids := by
  induction ids with
  | nil => exact fun _ => ⟨_, .nil, rfl⟩
  | cons id ids ih =>
    intro e inside
    obtain ⟨here, rest⟩ := forall_mem_cons.mp inside
    have step : Step e (.invalidate id) _ := .invalidate (getElem?_eq_getElem here)
    obtain ⟨later, run, same⟩ := ih (e := e.renewed id _) fun j mem => by
      rw [renewed, length_pool_update]
      exact rest j mem
    exact ⟨later, .cons step run, same⟩

end Exchange

def SyntaxCell.result? : SyntaxCell → Option SyntaxResult
  | .finished r => some r
  | .idle | .started => none

def CallPhase.result? : CallPhase → Option SyntaxResult
  | .returned r => some r
  | .captured | .waiting | .canceled => none

namespace Workspace

variable {w : Workspace} {d : Disk} {id : UnitId} {u : CompilationUnit}

theorem startParse_of_held (found : w.unit? id = some u) (idle : u.cell = .idle) (held : d.isHeld u.path) :
    w.startParse d id = w.launch id u.version := by
  have same : w.update id (withCell u.version .started) = w.update id fun v => { v with cell := .started } :=
    update_congr fun v other => by
      rw [← mem_unique found other]
      simp [withCell]
  simp [startParse, found, idle, held, launch, same]

theorem startParse_of_busy (found : w.unit? id = some u) (busy : u.cell ≠ .idle) : w.startParse d id = w := by
  simp only [startParse, found]
  split
  · rfl
  · rfl
  · rename_i idle
    exact absurd idle busy

theorem finishParse_withWaiting (w : Workspace) (waiting : List (UnitId × Nat)) (d : Disk) (id : UnitId)
    (version : Nat) :
    finishParse { w with waiting } d id version = { w.finishParse d id version with waiting } := by
  have same : unit? { w with waiting } id = w.unit? id := rfl
  unfold finishParse
  rw [same]
  split <;> rfl

/-- A parse that ends at once might as well have been left to end later. -/
theorem finishParse_launch (found : w.unit? id = some u) (d : Disk) (version : Nat) :
    { (w.launch id version).finishParse d id version with waiting := w.waiting } = w.finishParse d id version := by
  have begun : (w.launch id version).unit? id = some (u.withCell version .started) :=
    unit?_update_self found _
  have parsed : parseUnit d (u.withCell version .started) version = parseUnit d u version := by
    unfold withCell
    split <;> rfl
  have pool : ∀ cell : SyntaxCell, ((w.pool.modify id (withCell version .started)).modify id
      (withCell version cell)) = w.pool.modify id (withCell version cell) := by
    intro cell
    rw [modify_modify_eq]
    congr 1
    funext v
    simp only [Function.comp_apply, withCell]
    split <;> simp_all
  rw [finishParse_eq found, finishParse_eq begun, parsed]
  exact congrArg
    (fun pool => { w with pool, parses := if (parseUnit d u version).2 then w.parses + 1 else w.parses })
    (pool (.finished (parseUnit d u version).1))

theorem tree_fst {v : CompilationUnit} (found : (w.startParse d id).unit? id = some v) (canceled : Bool) :
    (w.tree d canceled id).1 = if canceled then none else v.cell.result? := by
  obtain ⟨_, _, _, _, cell, _, _, _⟩ := v
  unfold tree
  dsimp only
  split
  · rfl
  · rw [found]
    cases cell <;> rfl

end Workspace

namespace Exchange

variable {e next later : Exchange} {actions : List TreeAction} {k : Nat} {c : TreeCall} {id : UnitId}
  {u : CompilationUnit}

theorem calls_withPhase_concat {cs : List TreeCall} (same : e.calls = cs ++ [c])
    (phase : CallPhase) : (e.withPhase cs.length phase).calls = cs ++ [{ c with phase }] := by
  rw [withPhase, same]
  exact modifyTailIdx_add _ 0 cs [c]

/-- A call that runs alone up to where it waits does what asking for a tree does to the workspace. -/
theorem Valid.exists_run_startParse (valid : e.Valid) (found : e.workspace.unit? id = some u) (d : Disk) :
    ∃ actions later c r, Run e actions later ∧ later.workspace = e.workspace.startParse d id ∧
      later.calls = e.calls ++ [c] ∧ c.unit = id ∧ c.request = r ∧ c.phase = .waiting ∧
      later.current[id]? = some r := by
  obtain ⟨r, asked, request⟩ := valid.exists_current found
  let c : TreeCall := { unit := id, version := u.version, request := r }
  let first : Exchange := { e with calls := e.calls ++ [c] }
  have captured := Run.nil.snoc (.capture found asked)
  have called : first.calls[e.calls.length]? = some c := getElem?_concat_length
  have waits : ∀ {x : Exchange}, x.calls = first.calls → (x.withPhase e.calls.length .waiting).calls =
      e.calls ++ [{ c with phase := .waiting }] :=
    fun same => calls_withPhase_concat same .waiting
  by_cases idle : u.cell = .idle
  · have launched := captured.snoc (.launch called rfl request idle)
    by_cases held : d.isHeld u.path
    · have same := startParse_of_held found idle held
      exact ⟨_, _, _, r, launched, same.symm, waits rfl, rfl, rfl, rfl, asked⟩
    · let second := (first.launched c).withPhase e.calls.length .waiting
      have running : second.tasks[e.tasks.length]? = some ⟨id, u.version, r⟩ := getElem?_concat_length
      have begun : second.workspace.unit? id = some (u.withCell u.version .started) :=
        unit?_update_self found _
      have ended := launched.snoc (.finish (d := d) running begun)
      refine ⟨_, _, _, r, ended, ?_, waits rfl, rfl, rfl, rfl, asked⟩
      have free : e.workspace.startParse d id = e.workspace.finishParse d id u.version := by
        simp [startParse, found, idle, held]
      rw [free, ← finishParse_launch found d u.version]
      have last : (e.workspace.waiting ++ [(id, u.version)]).eraseIdx e.tasks.length = e.workspace.waiting := by
        rw [valid.waiting, eraseIdx_append_of_length_le (by simp)]
        simp
      exact congrArg
        (fun waiting => { (e.workspace.launch id u.version).finishParse d id u.version with waiting }) last
  · have joined := captured.snoc (.join called rfl request idle)
    exact ⟨_, _, _, r, joined, (startParse_of_busy found idle).symm, waits rfl, rfl, rfl, rfl, asked⟩

theorem Valid.exists_run_tree (valid : e.Valid) (found : e.workspace.unit? id = some u) (d : Disk) (canceled : Bool) :
    ∃ actions later c, Run e actions later ∧ later.workspace = (e.workspace.tree d canceled id).2 ∧
      later.calls = e.calls ++ [c] ∧ c.unit = id ∧ c.phase.result? = (e.workspace.tree d canceled id).1 := by
  obtain ⟨actions, now, c, r, run, workspace, calls, unit, request, waits, asked⟩ :=
    valid.exists_run_startParse found d
  have called : now.calls[e.calls.length]? = some c := by
    rw [calls]
    exact getElem?_concat_length
  have phase := calls_withPhase_concat calls
  obtain ⟨v, parsed, _⟩ := (Ages.startParse e.workspace d id).unit found
  have cell := (valid.run run).current (workspace ▸ parsed) asked
  rw [← request] at cell
  rw [tree_snd, tree_fst parsed]
  have gives : ∀ answer : Option SyntaxResult, answer = none → ∃ actions later c, Run e actions later ∧
      later.workspace = e.workspace.startParse d id ∧ later.calls = e.calls ++ [c] ∧ c.unit = id ∧
      c.phase.result? = answer := by
    rintro _ rfl
    exact ⟨_, _, _, run.snoc (.giveUp called waits), workspace, phase _, unit, rfl⟩
  cases canceled with
  | true => exact gives _ rfl
  | false =>
    cases state : v.cell with
    | idle | started => exact gives _ rfl
    | finished x => exact ⟨_, _, _, run.snoc (.receive called waits cell state), workspace, phase _, unit, rfl⟩

/-- Letting all parses end is to end them one after another. -/
theorem Valid.exists_run_finishWaiting (d : Disk) (n : Nat) : ∀ {e : Exchange}, e.Valid → e.tasks.length = n →
    ∃ later, Run e (List.replicate n (.finish 0 d)) later ∧ later.workspace = e.workspace.finishWaiting d := by
  induction n with
  | zero =>
    intro e valid empty
    have idle : e.workspace.waiting = [] := by rw [valid.waiting, length_eq_zero_iff.mp empty]; rfl
    refine ⟨e, .nil, ?_⟩
    rw [finishWaiting, idle]
    exact congrArg (fun waiting => { e.workspace with waiting }) idle
  | succ n ih =>
    intro e valid size
    cases tasks : e.tasks with
    | nil =>
      rw [tasks] at size
      cases size
    | cons t rest =>
      have first : e.tasks[0]? = some t := by rw [tasks]; rfl
      obtain ⟨u, found, _⟩ := valid.bound (valid.task t (mem_of_getElem? first))
      have step : Step e (.finish 0 d) (e.finished 0 t u d) := .finish first found
      obtain ⟨later, run, same⟩ := ih (valid.step step) (by simpa [Exchange.finished, tasks] using size)
      refine ⟨later, .cons step run, same.trans ?_⟩
      have waiting : e.workspace.waiting = (t.unit, t.version) :: rest.map fun t => (t.unit, t.version) := by
        rw [valid.waiting, tasks]
        rfl
      simp [finishWaiting, Exchange.finished, waiting, finishParse_withWaiting]

theorem withPhase_withPhase (called : e.calls[k]? = some c) (phase : CallPhase) :
    (e.withPhase k phase).withPhase k c.phase = e := by
  have calls : ((e.withPhase k phase).withPhase k c.phase).calls = e.calls := by
    refine ext_getElem? fun j => ?_
    rw [getElem?_withPhase, getElem?_withPhase]
    by_cases here : k = j
    · subst here
      rw [called]
      simp
    · cases e.calls[j]? <;> simp [here]
  exact congrArg (fun calls => { e with calls }) calls

/-- The result that a call gets is for the version that it captured. -/
theorem Valid.version_eq (valid : e.Valid) {r : SyntaxResult} (mem : c ∈ e.calls)
    (returned : c.phase = .returned r) : r.version = c.version := by
  obtain ⟨q, found, _, version, fits⟩ := valid.call c mem
  rw [returned] at fits
  exact (valid.result found fits).trans version

theorem Valid.result_eq (valid : e.Valid) {c c' : TreeCall} {r r' : SyntaxResult} (first : c ∈ e.calls)
    (second : c' ∈ e.calls) (unit : c.unit = c'.unit) (version : c.version = c'.version)
    (returned : c.phase = .returned r) (returned' : c'.phase = .returned r') : r = r' := by
  obtain ⟨q, found, ownUnit, ownVersion, fits⟩ := valid.call c first
  obtain ⟨q', other, otherUnit, otherVersion, otherFits⟩ := valid.call c' second
  have request := valid.unique found other (ownUnit.trans (unit.trans otherUnit.symm))
    (ownVersion.trans (version.trans otherVersion.symm))
  rw [returned, mem_unique found (request ▸ other)] at fits
  rw [returned', show q'.cell = .finished r from fits] at otherFits
  exact SyntaxCell.finished.inj otherFits

theorem Valid.exists_result_or_task (valid : e.Valid) (mem : c ∈ e.calls) (waits : c.phase = .waiting) :
    (∃ q r, e.request? c.request = some q ∧ q.cell = .finished r) ∨ ∃ t ∈ e.tasks, t.request = c.request := by
  obtain ⟨q, found, _, _, fits⟩ := valid.call c mem
  rw [waits] at fits
  cases state : q.cell with
  | idle => exact absurd state fits
  | started => exact .inr (valid.served found state)
  | finished r => exact .inl ⟨q, r, found, state⟩

theorem Step.version_lt_call (step : Step e (.invalidate id) next) (found : e.workspace.unit? id = some u)
    (run : Run next actions later) (new : e.calls.length ≤ k) (called : later.calls[k]? = some c) (here : c.unit = id) :
    u.version < c.version := by
  cases step with
  | invalidate _ =>
    refine run.version_le_call (u := u.invalidated) new called ?_
    rw [here]
    exact unit?_update_self found _

/-- A run after a call has given up is also a run in which it has not. -/
theorem Step.run_of_giveUp (step : Step e (.giveUp k) next)
    (run : Run next actions later) : Run e actions (later.withPhase k .waiting) := by
  cases step with
  | @giveUp _ c called waits =>
    have ended : (e.withPhase k .canceled).calls[k]? = some { c with phase := .canceled } := by
      rw [getElem?_withPhase, called]
      simp
    have resumed := (run.withPhase ended rfl).1
    have same := withPhase_withPhase called .canceled
    rw [waits] at same
    rwa [same] at resumed

theorem Step.recorded_eq {version : Nat} {ds : List UnitId} {xs : List Diagnostic}
    (step : Step e (.record id version ds xs) next) (found : e.workspace.unit? id = some u) :
    next.workspace.recorded id = if u.version = version then some ds else e.workspace.recorded id := by
  cases step with
  | record =>
    split
    · rename_i present
      rw [← present]
      have unit := unit?_setDependencies found ds xs id
      rw [found, map_some, if_pos rfl] at unit
      exact recorded_of_isResolved unit (u.isResolved_resolvedTo ds xs)
    · rename_i late
      rw [setDependencies_of_ne found late]

/-- What holds in every state of an exchange. -/
structure Assures (e : Exchange) : Prop where
  /-- No version of a unit is parsed twice. -/
  once : e.started.Nodup
  /-- Calls of one version get one result, which is for that version. -/
  shared : ∀ c ∈ e.calls, ∀ c' ∈ e.calls, ∀ r r', c.unit = c'.unit → c.version = c'.version →
    c.phase = .returned r → c'.phase = .returned r' → r = r' ∧ r.version = c.version
  /-- A call that waits can get a result, or its parse goes on. -/
  served : ∀ c ∈ e.calls, c.phase = .waiting →
    (∃ q r, e.request? c.request = some q ∧ q.cell = .finished r) ∨ ∃ t ∈ e.tasks, t.request = c.request
  /-- After an invalidation no call gets a result from before. -/
  renewed : ∀ {id u next actions later}, e.workspace.unit? id = some u → Step e (.invalidate id) next →
    Run next actions later → ∀ {k c r}, e.calls.length ≤ k → later.calls[k]? = some c → c.unit = id →
      c.phase = .returned r → u.version < r.version
  /-- Without a cancellation everything else goes on as with it. -/
  spared : ∀ {k next actions later}, Step e (.giveUp k) next → Run next actions later →
    Run e actions (later.withPhase k .waiting)
  /-- Dependencies that come from a result are accepted if the unit still has its version. -/
  recorded : ∀ {c r u ds xs next}, c ∈ e.calls → c.phase = .returned r →
    e.workspace.unit? c.unit = some u → Step e (.record c.unit r.version ds xs) next → next.workspace.recorded c.unit =
        if u.version = r.version then some ds else e.workspace.recorded c.unit
  /-- Asking for a tree, letting parses end and invalidating units are sequences of actions. -/
  trees : ∀ {id u}, e.workspace.unit? id = some u → ∀ d canceled, ∃ actions later c, Run e actions later ∧
    later.workspace = (e.workspace.tree d canceled id).2 ∧ later.calls = e.calls ++ [c] ∧ c.unit = id ∧
      c.phase.result? = (e.workspace.tree d canceled id).1
  ends : ∀ d, ∃ actions later, Run e actions later ∧ later.workspace = e.workspace.finishWaiting d
  drops : ∀ ids, (∀ id ∈ ids, id < e.workspace.pool.length) →
    ∃ actions later, Run e actions later ∧ later.workspace = e.workspace.invalidateAll ids

/-- However calls, parses, invalidations and records overlap, a version of a unit is parsed once and its calls share
the result. -/
theorem Run.assures {projects : List ProjectConfig} {bodies : BodyCache}
    (run : Run (Exchange.fresh projects bodies) actions e) : e.Assures := by
  have valid := (valid_fresh projects bodies).run run
  refine ⟨valid.once, ?_, fun c member => valid.exists_result_or_task member, ?_,
    fun step after => step.run_of_giveUp after, fun _ _ found step => step.recorded_eq found,
    fun found d canceled => valid.exists_run_tree found d canceled, fun d => ?_, fun ids inside => ?_⟩
  · intro c first c' second r r' unit version returned returned'
    exact ⟨valid.result_eq first second unit version returned returned', valid.version_eq first returned⟩
  · intro id u next actions later found step after k c r new called here returned
    rw [((valid.step step).run after).version_eq (List.mem_of_getElem? called) returned]
    exact step.version_lt_call found after new called here
  · obtain ⟨later, ended, same⟩ := Valid.exists_run_finishWaiting d _ valid rfl
    exact ⟨_, later, ended, same⟩
  · obtain ⟨later, dropped, same⟩ := exists_run_invalidateAll ids inside
    exact ⟨_, later, dropped, same⟩

/-- Two calls come before an invalidation, of which one gives up, and one after it; the parses end in the
other order than they began. -/
def overlappingActions : List TreeAction :=
  [.request 0 "/src/A.kn", .capture 0, .start 0, .capture 0, .start 1, .invalidate 0, .capture 0, .start 2,
    .giveUp 1, .finish 1 Workspace.mutualFiles, .receive 2, .finish 0 Workspace.mutualFiles, .receive 0]

theorem exists_run_overlappingActions : ∃ e, Run (fresh [mutualProject] {}) overlappingActions e ∧
    e.started = [(0, 0), (0, 1)] ∧
    e.calls.map (fun c => c.phase.result?.map (·.version)) = [some 0, none, some 1] :=
  ⟨_, .cons (.make rfl rfl) <| .cons (.capture rfl rfl) <| .cons (.launch rfl rfl rfl rfl) <|
    .cons (.capture rfl rfl) <| .cons (.join rfl rfl rfl (by simp)) <| .cons (.invalidate rfl) <|
    .cons (.capture rfl rfl) <| .cons (.launch rfl rfl rfl rfl) <| .cons (.giveUp rfl rfl) <|
    .cons (.finish rfl rfl) <| .cons (.receive rfl rfl rfl rfl) <| .cons (.finish rfl rfl) <|
    .cons (.receive rfl rfl rfl rfl) .nil, rfl, rfl⟩

theorem assures_overlappingActions : ∃ e, Run (fresh [Workspace.mutualProject] {}) overlappingActions e ∧
    e.Assures ∧ e.started.length = 2 := by
  obtain ⟨e, run, started, _⟩ := exists_run_overlappingActions
  exact ⟨e, run, run.assures, by rw [started]; rfl⟩

end Exchange

end ScriptBuild
