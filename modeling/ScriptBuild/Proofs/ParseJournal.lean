import ScriptBuild.Proofs.DependencyLedger

/-! A workspace with a journal of the parses that ended. -/

namespace ScriptBuild

open List Option CompilationUnit Sha256

/-- What is asked of a workspace, and what else happens to it. -/
inductive WorkspaceAction where
  | configure (p : ProjectId) (f : ProjectConfig → ProjectConfig)
  | request (p : ProjectId) (path : Text)
  | tree (d : Disk) (canceled : Bool) (id : UnitId)
  /-- The parses that wait for their files end. -/
  | finishWaiting (d : Disk)
  | record (id : UnitId) (version : Nat) (dependencies : List UnitId) (diagnostics : List Diagnostic)
  | invalidate (path : Text)
  | refresh (d : Disk) (path : Text)
  | reresolve (p : ProjectId)
  | evict (p : ProjectId)

/-- Whether parses may end in an action. -/
def WorkspaceAction.parses : WorkspaceAction → Bool
  | .tree .. => true
  | .finishWaiting _ => true
  | _ => false

/-- Results of parses with their units, the last one first. -/
abbrev ParseLog := List (UnitId × SyntaxResult)

namespace ParseLog

variable {log : ParseLog} {id : UnitId} {version : Nat} {r : SyntaxResult}

def ofVersion (log : ParseLog) (id : UnitId) (version : Nat) : Option SyntaxResult :=
  (log.find? fun e => e.1 == id && e.2.version == version).map (·.2)

def latest (log : ParseLog) (id : UnitId) : Option SyntaxResult := (log.find? fun e => e.1 == id).map (·.2)

theorem ofVersion_cons (log : ParseLog) (j : UnitId) (r : SyntaxResult) (id : UnitId) (version : Nat) :
    ofVersion ((j, r) :: log) id version =
      if j = id ∧ r.version = version then some r else ofVersion log id version := by
  simp only [ofVersion, find?_cons]
  by_cases here : j = id ∧ r.version = version
  · simp [here]
  · rw [if_neg here]
    have differs : (j == id && r.version == version) = false := by
      simpa [imp_iff_not_or] using here
    rw [differs]

theorem ofVersion_eq_none (absent : ∀ e ∈ log, e.1 = id → e.2.version ≠ version) : ofVersion log id version = none := by
  rw [ofVersion, map_eq_none_iff, find?_eq_none]
  intro e mem same
  rw [Bool.and_eq_true, beq_iff_eq, beq_iff_eq] at same
  exact absent e mem same.1 same.2

/-- If the last parse of a unit is of some version, it is the last one of that version. -/
theorem ofVersion_of_latest (found : latest log id = some r) : ofVersion log id r.version = some r := by
  induction log with
  | nil => cases found
  | cons e log ih =>
    obtain ⟨j, s⟩ := e
    rw [ofVersion_cons]
    by_cases here : j = id
    · have same : s = r := by simpa [latest, here] using found
      rw [if_pos ⟨here, by rw [same]⟩, same]
    · rw [if_neg fun both => here both.1]
      apply ih
      simpa [latest, beq_eq_false_iff_ne.mpr here] using found

end ParseLog

namespace Workspace

variable {w later : Workspace} {id : UnitId} {u : CompilationUnit} {d : Disk}

def perform (w : Workspace) : WorkspaceAction → Workspace
  | .configure p f => w.configure p f
  | .request p path => (w.request p path).2
  | .tree d canceled id => (w.tree d canceled id).2
  | .finishWaiting d => w.finishWaiting d
  | .record id version ds xs => w.setDependencies id version ds xs
  | .invalidate path => (w.invalidate path).2
  | .refresh d path => (w.refresh d path).2
  | .reresolve p => (w.reresolve p).2
  | .evict p => (w.evict p).2

/-- A later workspace: versions grow, and a unit that has come to its place is new. -/
structure LeadsTo (w later : Workspace) : Prop where
  unit : ∀ {id u}, w.unit? id = some u → ∃ v, later.unit? id = some v ∧ u.version ≤ v.version
  registry : ∀ e ∈ later.registry, e ∈ w.registry ∨ (w.unit? e.2 = none ∧ ∃ v, later.unit? e.2 = some v)

/-- A version of a unit that is there already, if not behind it. -/
def IsPast (w : Workspace) (id : UnitId) (version : Nat) : Prop := ∃ u, w.unit? id = some u ∧ version ≤ u.version

namespace LeadsTo

theorem refl (w : Workspace) : w.LeadsTo w := ⟨fun found => ⟨_, found, Nat.le_refl _⟩, fun _ => .inl⟩

theorem trans {a b c : Workspace} (first : a.LeadsTo b) (second : b.LeadsTo c) : a.LeadsTo c := by
  refine ⟨fun found => ?_, fun e mem => ?_⟩
  · obtain ⟨v, next, older⟩ := first.unit found
    obtain ⟨x, last, old⟩ := second.unit next
    exact ⟨x, last, Nat.le_trans older old⟩
  · rcases second.registry e mem with kept | ⟨absent, there⟩
    · rcases first.registry e kept with old | ⟨none, v, found⟩
      · exact .inl old
      · obtain ⟨x, last, _⟩ := second.unit found
        exact .inr ⟨none, x, last⟩
    · refine .inr ⟨eq_none_iff_forall_ne_some.mpr fun u found => ?_, there⟩
      obtain ⟨v, next, _⟩ := first.unit found
      rw [absent] at next
      cases next

theorem of_ages (aged : w.Ages later) : w.LeadsTo later := by
  refine ⟨fun found => ?_, fun e mem => .inl (aged.registry ▸ mem)⟩
  obtain ⟨v, next, older⟩ := aged.unit found
  exact ⟨v, next, older.version⟩

theorem isPast (leads : w.LeadsTo later) {version : Nat} (past : w.IsPast id version) : later.IsPast id version := by
  obtain ⟨u, found, bound⟩ := past
  obtain ⟨v, next, older⟩ := leads.unit found
  exact ⟨v, next, Nat.le_trans bound older⟩

theorem registered (leads : w.LeadsTo later) (before : ∀ e ∈ w.registry, ∃ u, w.unit? e.2 = some u) :
    ∀ e ∈ later.registry, ∃ u, later.unit? e.2 = some u := by
  intro e mem
  rcases leads.registry e mem with old | ⟨_, there⟩
  · obtain ⟨u, found⟩ := before e old
    obtain ⟨v, next, _⟩ := leads.unit found
    exact ⟨v, next⟩
  · exact there

end LeadsTo

/-- A later workspace in which nothing was parsed: units are as they were or have been dropped, and the new
ones have no tree. -/
structure Idles (w later : Workspace) : Prop where
  unit : ∀ {id u}, w.unit? id = some u → ∃ v, later.unit? id = some v ∧
    ((v.version = u.version ∧ v.cell = u.cell) ∨ (u.version < v.version ∧ v.cell = .idle))
  registry : ∀ e ∈ later.registry, e ∈ w.registry ∨ (w.unit? e.2 = none ∧ ∃ v, later.unit? e.2 = some v)
  new : ∀ {id v}, w.unit? id = none → later.unit? id = some v → v.cell = .idle
  waiting : later.waiting = w.waiting
  parses : later.parses = w.parses

namespace Idles

theorem leads (idles : w.Idles later) : w.LeadsTo later := by
  refine ⟨fun found => ?_, idles.registry⟩
  obtain ⟨v, next, ⟨same, _⟩ | ⟨ahead, _⟩⟩ := idles.unit found
  · exact ⟨v, next, Nat.le_of_eq same.symm⟩
  · exact ⟨v, next, Nat.le_of_lt ahead⟩

theorem of_pool (pool : later.pool = w.pool) (registry : ∀ e ∈ later.registry, e ∈ w.registry)
    (waiting : later.waiting = w.waiting) (parses : later.parses = w.parses) : w.Idles later := by
  have same : ∀ id, later.unit? id = w.unit? id := fun id => by rw [unit?, pool, unit?]
  refine ⟨fun found => ⟨_, (same _).trans found, .inl ⟨rfl, rfl⟩⟩, fun e mem => .inl (registry e mem),
    fun {id v} absent next => ?_, waiting, parses⟩
  rw [same, absent] at next
  cases next

theorem refl (w : Workspace) : w.Idles w := of_pool rfl (fun _ mem => mem) rfl rfl

theorem trans {a b c : Workspace} (first : a.Idles b) (second : b.Idles c) : a.Idles c := by
  refine ⟨fun {id u} found => ?_, (first.leads.trans second.leads).registry, fun {id x} absent last => ?_,
    second.waiting.trans first.waiting, second.parses.trans first.parses⟩
  · obtain ⟨v, next, kept⟩ := first.unit found
    obtain ⟨x, last, still⟩ := second.unit next
    refine ⟨x, last, ?_⟩
    rcases kept with ⟨version, cell⟩ | ⟨version, cell⟩ <;>
      rcases still with ⟨version', cell'⟩ | ⟨version', cell'⟩
    · exact .inl ⟨version'.trans version, cell'.trans cell⟩
    · exact .inr ⟨version ▸ version', cell'⟩
    · exact .inr ⟨version' ▸ version, cell'.trans cell⟩
    · exact .inr ⟨Nat.lt_trans version version', cell'⟩
  · cases next : b.unit? id with
    | none => exact second.new next last
    | some v =>
      obtain ⟨y, there, ⟨_, cell⟩ | ⟨_, cell⟩⟩ := second.unit next <;> obtain rfl := Option.mem_unique last there
      · exact cell.trans (first.new absent next)
      · exact cell

theorem update {f : CompilationUnit → CompilationUnit}
    (unit : ∀ u : CompilationUnit, ((f u).version = u.version ∧ (f u).cell = u.cell) ∨
      (u.version < (f u).version ∧ (f u).cell = .idle)) (w : Workspace) (id : UnitId) :
    w.Idles (w.update id f) := by
  refine ⟨fun {j u} found => ?_, fun e => .inl, fun {j v} absent next => ?_, rfl, rfl⟩
  · refine ⟨if id = j then f u else u, by rw [unit?_update, found, map_some], ?_⟩
    split
    · exact unit u
    · exact .inl ⟨rfl, rfl⟩
  · rw [unit?_update, absent] at next
    cases next

section

variable (w : Workspace) (p : ProjectId)

theorem invalidateAll (ids : List UnitId) : w.Idles (w.invalidateAll ids) := by
  induction ids generalizing w with
  | nil => exact .refl w
  | cons id ids ih =>
    exact (update (fun u => .inr ⟨Nat.lt_succ_self _, rfl⟩) w id).trans
      (ih _)

theorem request (path : Text) : w.Idles (w.request p path).2 := by
  refine ⟨fun found => ⟨_, unit?_request found, .inl ⟨rfl, rfl⟩⟩, fun e mem => ?_,
    fun {id v} absent next => ?_, ?_, ?_⟩
  · revert mem
    refine w.request_snd_induction p path .inl fun spec _ _ mem => ?_
    rcases mem_append.mp mem with old | new
    · exact .inl old
    · rw [mem_singleton.mp new]
      exact .inr ⟨getElem?_eq_none (Nat.le_refl _), _, getElem?_concat_length⟩
  · rcases of_unit?_request next with old | ⟨_, _, _, _, new⟩
    · rw [absent] at old
      cases old
    · rw [new]
  all_goals exact w.request_snd_induction p path rfl fun _ _ _ => rfl

theorem setDependencies (id : UnitId) (version : Nat) (ds : List UnitId) (xs : List Diagnostic) :
    w.Idles (w.setDependencies id version ds xs) := by
  cases found : w.unit? id with
  | none =>
    rw [Workspace.setDependencies, found]
    exact .refl w
  | some u =>
    by_cases late : u.version ≠ version
    · rw [setDependencies_of_ne found late]
      exact .refl w
    · rw [not_not] at late
      subst late
      rw [setDependencies_eq found]
      exact (update (f := resolvedTo ds xs) (fun v => .inl ⟨rfl, rfl⟩) w id).trans
        (of_pool rfl (fun _ mem => mem) rfl rfl)

theorem evict : w.Idles (w.evict p).2 := by
  have gone : w.Idles (w.without (w.strays p)) :=
    of_pool rfl (fun e mem => (mem_filter.mp mem).1) rfl rfl
  exact gone.trans (invalidateAll _ _)

end

theorem perform {a : WorkspaceAction} (quiet : a.parses = false) (w : Workspace) : w.Idles (w.perform a) := by
  cases a with
  | tree d canceled id | finishWaiting d => cases quiet
  | configure p f => exact .of_pool rfl (fun _ mem => mem) rfl rfl
  | request p path => exact .request w p path
  | record id version ds xs => exact .setDependencies w id version ds xs
  | invalidate path | reresolve p => exact .invalidateAll w _
  | refresh d path =>
    rw [Workspace.perform, refresh_eq]
    exact .invalidateAll w _
  | evict p => exact .evict w p

end Idles

theorem LeadsTo.perform (w : Workspace) (a : WorkspaceAction) : w.LeadsTo (w.perform a) := by
  by_cases parses : a.parses
  · cases a with
    | tree d canceled id =>
      rw [Workspace.perform, tree_snd]
      exact .of_ages (.startParse w d id)
    | finishWaiting d => exact .of_ages (.finishWaiting w d)
    | _ => cases parses
  · exact (Idles.perform (Bool.not_eq_true _ ▸ parses) w).leads

/-- The parses that a call for the tree of a unit carries out at once. -/
def due (w : Workspace) (d : Disk) (id : UnitId) : List (UnitId × Nat) :=
  match w.unit? id with
  | none => []
  | some u =>
    match u.cell with
    | .started | .finished _ => []
    | .idle => if d.isHeld u.path then [] else [(id, u.version)]

/-- The parse of a version of a unit waits for its file. -/
def postponed (w : Workspace) (id : UnitId) (version : Nat) : Workspace :=
  { w.update id (fun u => { u with cell := .started }) with waiting := w.waiting ++ [(id, version)] }

theorem LeadsTo.postponed (w : Workspace) (id : UnitId) (version : Nat) : w.LeadsTo (w.postponed id version) := by
  have aged := Ages.update (f := fun u => { u with cell := .started })
    (fun u => ⟨rfl, rfl, rfl, Nat.le_refl _, rfl, rfl⟩) w id
  exact ⟨(of_ages aged).unit, fun e => .inl⟩

/-- A call for a tree changes nothing, or leaves a parse to end later, or carries it out. -/
theorem startParse_cases (w : Workspace) (d : Disk) (id : UnitId) : (w.due d id = [] ∧ w.startParse d id = w) ∨
    (∃ u, w.unit? id = some u ∧ u.cell = .idle ∧ w.due d id = [] ∧ w.startParse d id = w.postponed id u.version) ∨
    (∃ u, w.unit? id = some u ∧ w.due d id = [(id, u.version)] ∧ w.startParse d id = w.finishParse d id u.version) := by
  cases found : w.unit? id with
  | none => exact .inl ⟨by rw [due, found], by rw [startParse, found]⟩
  | some u =>
    cases cell : u.cell with
    | started | finished r => exact .inl ⟨by simp only [due, found, cell], by simp [startParse, found, cell]⟩
    | idle =>
      by_cases held : d.isHeld u.path
      · exact .inr (.inl ⟨u, rfl, cell, by simp [due, found, cell, held],
          by simp [startParse, found, cell, held, postponed]⟩)
      · exact .inr (.inr ⟨u, rfl, by simp [due, found, cell, held],
          by simp [startParse, found, cell, held]⟩)

theorem Sha256.length_compressAll (fuel : Nat) : ∀ {digest : List UInt32} (ws : List UInt32), digest.length = 8 →
      (compressAll fuel digest ws).length = 8 := by
  induction fuel with
  | zero => exact fun _ same => same
  | succ fuel ih =>
    intro digest ws same
    rw [compressAll]
    split
    · exact same
    · refine ih _ ?_
      rw [compress, length_zipWith, same]
      rfl

theorem sha256_ne_nil (content : Text) : sha256 content ≠ [] := by
  obtain ⟨w, ws, words⟩ := exists_cons_of_length_pos
    (l := compressAll ((words (padded content)).length / 16) initial
      (Sha256.words (Sha256.padded content))) (by rw [Sha256.length_compressAll _ _ rfl]; decide)
  intro none
  have digits : Text.ofHex 8 w.toNat = [] := by
    rw [sha256, words, flatMap_cons, append_eq_nil_iff] at none
    exact none.1
  have width := congrArg length digits
  simp only [Text.ofHex, length_append, length_replicate, length_nil] at width
  omega

/-- A parse counts if there was content, which is then told by a digest. -/
theorem isEmpty_fingerprint_parseUnit (d : Disk) (u : CompilationUnit) (version : Nat) :
    (parseUnit d u version).2 = !(parseUnit d u version).1.fingerprint.isEmpty := by
  unfold parseUnit
  split
  · rfl
  · simp [sha256_ne_nil]

end Workspace

/-- A workspace and the parses that ended in it. -/
structure Journal where
  workspace : Workspace
  parsed : ParseLog := []

namespace Journal

open Workspace

variable {j : Journal} {d : Disk} {id : UnitId} {u : CompilationUnit}

def fresh (projects : List ProjectConfig) (bodies : BodyCache) : Journal :=
  { workspace := Workspace.fresh projects bodies }

def finish (d : Disk) (j : Journal) (task : UnitId × Nat) : Journal where
  workspace := j.workspace.finishParse d task.1 task.2
  parsed := ((j.workspace.unit? task.1).map fun u => (task.1, (parseUnit d u task.2).1)).toList ++ j.parsed

def finishAll (d : Disk) (j : Journal) (tasks : List (UnitId × Nat)) : Journal := tasks.foldl (finish d) j

def parsedAfter (j : Journal) : WorkspaceAction → ParseLog
  | .tree d _ id => (j.finishAll d (j.workspace.due d id)).parsed
  | .finishWaiting d =>
    (finishAll d { j with workspace := { j.workspace with waiting := [] } } j.workspace.waiting).parsed
  | _ => j.parsed

def step (j : Journal) (a : WorkspaceAction) : Journal := ⟨j.workspace.perform a, j.parsedAfter a⟩

def run (j : Journal) (actions : List WorkspaceAction) : Journal := actions.foldl step j

theorem workspace_finishAll (d : Disk) (tasks : List (UnitId × Nat)) (j : Journal) :
    (finishAll d j tasks).workspace = tasks.foldl (fun w task => w.finishParse d task.1 task.2) j.workspace := by
  induction tasks generalizing j with
  | nil => rfl
  | cons task tasks ih => exact ih (j.finish d task)

/-- What the units of a workspace keep of the parses that ended. -/
structure Recalls (j : Journal) : Prop where
  cell : ∀ {id u}, j.workspace.unit? id = some u → ∀ r, u.cell = .finished r ↔ j.parsed.ofVersion id u.version = some r
  past : ∀ e ∈ j.parsed, j.workspace.IsPast e.1 e.2.version
  waiting : ∀ t ∈ j.workspace.waiting, j.workspace.IsPast t.1 t.2
  registered : ∀ e ∈ j.workspace.registry, ∃ u, j.workspace.unit? e.2 = some u
  counted : j.workspace.parses = j.parsed.countP fun e => !e.2.fingerprint.isEmpty

namespace Recalls

theorem fresh (projects : List ProjectConfig) (bodies : BodyCache) : (fresh projects bodies).Recalls :=
  ⟨fun found => (by cases found), fun e mem => (by cases mem), fun t mem => (by cases mem),
    fun e mem => (by cases mem), rfl⟩

variable (recalls : j.Recalls)

include recalls

/-- The digest that a unit has is the one of the last parse of its present version. -/
theorem fingerprint_eq (found : j.workspace.unit? id = some u) :
    u.fingerprint = ((j.parsed.ofVersion id u.version).map (·.fingerprint)).getD [] := by
  have cell := recalls.cell found
  unfold fingerprint
  cases parse : j.parsed.ofVersion id u.version with
  | some r => rw [(cell r).mpr parse]; rfl
  | none =>
    split
    · rename_i r finished
      rw [(cell r).mp finished] at parse
      cases parse
    all_goals rfl

/-- What does not parse keeps the journal right: there is no parse yet of a version that is to come. -/
theorem idles {later : Workspace} (idles : j.workspace.Idles later) : Recalls ⟨later, j.parsed⟩ := by
  refine ⟨fun {id v} next r => ?_, fun e mem => idles.leads.isPast (recalls.past e mem),
    fun t mem => ?_, idles.leads.registered recalls.registered, idles.parses.trans recalls.counted⟩
  · have unparsed : v.cell = .idle → (∀ e ∈ j.parsed, e.1 = id → e.2.version ≠ v.version) →
        (v.cell = .finished r ↔ j.parsed.ofVersion id v.version = some r) := by
      intro idle absent
      rw [idle, ParseLog.ofVersion_eq_none absent]
      exact ⟨fun same => (by cases same), fun same => (by cases same)⟩
    cases found : j.workspace.unit? id with
    | none =>
      refine unparsed (idles.new found next) fun e mem here => ?_
      obtain ⟨u, unit, _⟩ := recalls.past e mem
      rw [here, found] at unit
      cases unit
    | some u =>
      obtain ⟨x, there, ⟨version, cell⟩ | ⟨ahead, cell⟩⟩ := idles.unit found <;>
        obtain rfl := Option.mem_unique next there
      · rw [cell, version]
        exact recalls.cell found r
      · refine unparsed cell fun e mem here => ?_
        obtain ⟨x, unit, bound⟩ := recalls.past e mem
        rw [here, found] at unit
        rw [← some.inj unit] at bound
        exact Nat.ne_of_lt (Nat.lt_of_le_of_lt bound ahead)
  · rw [idles.waiting] at mem
    exact idles.leads.isPast (recalls.waiting t mem)

/-- The end of a parse is kept by its unit if it is of the present version, and by the journal in any case. -/
theorem finish {task : UnitId × Nat} (found : j.workspace.unit? task.1 = some u) (bound : task.2 ≤ u.version)
    (d : Disk) : (j.finish d task).Recalls := by
  obtain ⟨id, version⟩ := task
  obtain ⟨r, result⟩ : ∃ r, r = (parseUnit d u version).1 := ⟨_, rfl⟩
  have own : r.version = version := by rw [result, version_parseUnit]
  have workspace : (j.finish d (id, version)).workspace = { j.workspace.update id (withCell version (.finished r)) with
        parses := if (parseUnit d u version).2 then j.workspace.parses + 1 else j.workspace.parses } := by
    rw [result]
    exact finishParse_eq found d version
  have parsed : (j.finish d (id, version)).parsed = (id, r) :: j.parsed := by
    simp only [Journal.finish, found, result]
    rfl
  have unit : ∀ k, (j.finish d (id, version)).workspace.unit? k =
      (j.workspace.unit? k).map fun v => if id = k then v.withCell version (.finished r) else v := by
    intro k
    rw [workspace]
    exact unit?_update _ id _ k
  have leads : j.workspace.LeadsTo (j.finish d (id, version)).workspace :=
    .of_ages (.finishParse _ d id version)
  refine ⟨fun {k x} next s => ?_, fun e mem => ?_, fun t mem => ?_, leads.registered recalls.registered, ?_⟩
  · rw [unit] at next
    obtain ⟨v, old, rfl⟩ := map_eq_some_iff.mp next
    rw [parsed, ParseLog.ofVersion_cons, own]
    by_cases here : id = k ∧ version = v.version
    · obtain ⟨rfl, rfl⟩ := here
      simp [withCell]
    · have same : (if id = k then v.withCell version (.finished r) else v) = v := by
        split
        · rename_i at_unit
          exact if_neg fun now => here ⟨at_unit, (beq_iff_eq.mp now).symm⟩
        · rfl
      rw [same, if_neg here]
      exact recalls.cell old s
  · rw [parsed] at mem
    rcases mem_cons.mp mem with rfl | old
    · exact leads.isPast ⟨u, found, own ▸ bound⟩
    · exact leads.isPast (recalls.past e old)
  · rw [workspace] at mem
    exact leads.isPast (recalls.waiting t mem)
  · rw [parsed, countP_cons, ← recalls.counted, result, ← isEmpty_fingerprint_parseUnit]
    split <;> simp_all

/-- Parses of versions that are not to come may end one after another. -/
theorem finishAll {tasks : List (UnitId × Nat)} (bounds : ∀ t ∈ tasks, j.workspace.IsPast t.1 t.2) (d : Disk) :
    (j.finishAll d tasks).Recalls := by
  induction tasks generalizing j with
  | nil => exact recalls
  | cons task tasks ih =>
    obtain ⟨⟨u, found, bound⟩, rest⟩ := forall_mem_cons.mp bounds
    refine ih (recalls.finish found bound d) fun t mem => ?_
    exact (LeadsTo.of_ages (.finishParse j.workspace d task.1 task.2)).isPast (rest t mem)

/-- A parse that has to wait for its file changes no result. -/
theorem postponed (found : j.workspace.unit? id = some u) (idle : u.cell = .idle) :
    Recalls ⟨j.workspace.postponed id u.version, j.parsed⟩ := by
  have leads := LeadsTo.postponed j.workspace id u.version
  refine ⟨fun {k x} next s => ?_, fun e mem => leads.isPast (recalls.past e mem), fun t mem => ?_,
    leads.registered recalls.registered, recalls.counted⟩
  · obtain ⟨v, old, rfl⟩ := map_eq_some_iff.mp ((unit?_update _ _ _ _).symm.trans next)
    have cell := recalls.cell old s
    split
    · rename_i here
      subst here
      rw [found] at old
      rw [← some.inj old, idle] at cell
      rw [← some.inj old, ← cell]
      exact ⟨fun same => (by cases same), fun same => (by cases same)⟩
    · exact cell
  · rcases mem_append.mp mem with old | new
    · exact leads.isPast (recalls.waiting t old)
    · rw [mem_singleton.mp new]
      exact leads.isPast ⟨u, found, Nat.le_refl _⟩

theorem step (a : WorkspaceAction) : (j.step a).Recalls := by
  cases a with
  | tree d canceled id =>
    have same : j.step (.tree d canceled id) =
        ⟨j.workspace.startParse d id, (j.finishAll d (j.workspace.due d id)).parsed⟩ := by
      rw [← tree_snd _ d canceled id]
      rfl
    rw [same]
    rcases j.workspace.startParse_cases d id with ⟨due, parse⟩ | ⟨u, found, idle, due, parse⟩ |
      ⟨u, found, due, parse⟩ <;> rw [due, parse]
    · exact recalls
    · exact recalls.postponed found idle
    · have done : (j.finish d (id, u.version)).Recalls := recalls.finish found (Nat.le_refl _) d
      exact done
  | finishWaiting d =>
    have bare : Recalls { j with workspace := { j.workspace with waiting := [] } } :=
      ⟨recalls.cell, recalls.past, fun t mem => (by cases mem), recalls.registered, recalls.counted⟩
    have done := bare.finishAll recalls.waiting d
    have same : (Journal.finishAll d { j with workspace := { j.workspace with waiting := [] } }
        j.workspace.waiting).workspace = j.workspace.finishWaiting d := workspace_finishAll d _ _
    rw [show j.step (.finishWaiting d) = ⟨j.workspace.finishWaiting d, _⟩ from rfl, ← same]
    exact done
  | _ => exact recalls.idles (Idles.perform rfl _)

theorem run (actions : List WorkspaceAction) : (j.run actions).Recalls := by
  induction actions generalizing j with
  | nil => exact recalls
  | cons a actions ih => exact ih (recalls.step a)

end Recalls

end Journal

end ScriptBuild
