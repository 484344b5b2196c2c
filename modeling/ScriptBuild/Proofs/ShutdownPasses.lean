import Mathlib.Data.List.Basic
import Mathlib.Data.List.Induction
import ScriptBuild.Server.Shutdown

/-! Passes of a shutdown handler over its hooks, whatever the order of the steps around them. -/

namespace ScriptBuild

open List

namespace ShutdownHook

variable {hooks registered : List ShutdownHook}

/-- The hooks once each, lower priorities first, and those of one priority as they were registered. -/
structure IsOrder (hooks registered : List ShutdownHook) : Prop where
  perm : hooks.Perm registered
  sorted : hooks.Pairwise fun a b => a.priority ≤ b.priority
  stable : ∀ p : Int, hooks.filter (·.priority = p) = registered.filter (·.priority = p)

theorem isOrder_inOrder (hooks : List ShutdownHook) : IsOrder (inOrder id hooks) hooks := by
  let le (a b : ShutdownHook) : Bool := a.priority ≤ b.priority
  have trans : ∀ a b c, le a b → le b c → le a c := by
    simp only [le, decide_eq_true_eq]
    exact fun a b c => Int.le_trans
  have total : ∀ a b, le a b || le b a := by
    simp only [le, Bool.or_eq_true, decide_eq_true_eq]
    exact fun a b => Int.le_total _ _
  have perm : (inOrder id hooks).Perm hooks := mergeSort_perm hooks le
  refine ⟨perm, (pairwise_mergeSort trans total hooks).imp of_decide_eq_true, fun p => ?_⟩
  -- The hooks of one priority are sorted already, so that they keep their order.
  have alike : (hooks.filter (·.priority = p)).Pairwise (le · ·) := by
    refine pairwise_of_forall_mem_list fun a first b second => ?_
    simp only [mem_filter, decide_eq_true_eq] at first second
    simp [le, first.2, second.2]
  have kept := (sublist_mergeSort trans total alike filter_sublist).filter (·.priority = p)
  simp only [filter_filter, Bool.and_self] at kept
  exact (kept.eq_of_length (perm.filter _).length_eq.symm).symm

theorem IsOrder.register (order : IsOrder hooks registered) (hook : ShutdownHook) :
    IsOrder (inOrder id (hooks ++ [hook])) (registered ++ [hook]) := by
  obtain ⟨perm, sorted, stable⟩ := isOrder_inOrder (hooks ++ [hook])
  refine ⟨perm.trans (order.perm.append_right _), sorted, fun p => ?_⟩
  rw [stable, filter_append, filter_append, order.stable]

end ShutdownHook

namespace ShutdownAction

@[simp] def hook? : ShutdownAction → Option ShutdownHook
  | register hook => some hook
  | _ => none

/-- The actions start a handler and then have it end, by a call or by a signal that it takes. -/
def Ask (actions : List ShutdownAction) : Prop :=
  [start, shutdown, trigger] <+ actions ∨ ∃ name, [start, signal name, advance true] <+ actions

theorem Ask.later {actions : List ShutdownAction} (asks : Ask actions) (a : ShutdownAction) :
    Ask (actions ++ [a]) :=
  asks.imp (·.trans (sublist_append_left _ _))
    (Exists.imp fun _ => (·.trans (sublist_append_left _ _)))

end ShutdownAction

namespace ShutdownEvent

@[simp] def hook? : ShutdownEvent → Option ShutdownHook
  | registered hook => some hook
  | _ => none

/-- Whether the event belongs to a pass over the hooks. -/
@[simp] def isPass : ShutdownEvent → Bool
  | taken | ran _ | closed => true
  | registered _ | started | triggered | received _ => false

end ShutdownEvent

open ShutdownEvent ShutdownHook ShutdownAction

variable {actions : List ShutdownAction} {left events more : List ShutdownEvent}

/-- The events are those of one pass, but for the ones that are left. It begins when the handler has
been started and triggered, with the hooks that the actions have registered by then. -/
def Passes (actions : List ShutdownAction) (left events : List ShutdownEvent) : Prop :=
  ∃ early bySignal after hooks, early ++ [advance bySignal] <+: actions ∧ Ask early ∧
    let before := (ShutdownHandler.run {} early).events
    events = before ++ taken :: after ∧ before.filter isPass = [] ∧ started ∈ before ∧
      triggered ∈ before ∧ IsOrder hooks (early.filterMap ShutdownAction.hook?) ∧
      after.filter isPass ++ left = hooks.map ran ++ [closed]

theorem Passes.append (passes : Passes actions (more.filter isPass ++ left) events) :
    Passes actions left (events ++ more) := by
  obtain ⟨early, bySignal, after, hooks, place, asks, rfl, first, starts, triggers, order, whole⟩ := passes
  refine ⟨early, bySignal, after ++ more, hooks, place, asks, ?_, first, starts, triggers, order, ?_⟩
  · rw [append_assoc, cons_append]
  · rw [filter_append, append_assoc, whole]

theorem Passes.later (passes : Passes actions left events) (a : ShutdownAction) :
    Passes (actions ++ [a]) left events := by
  obtain ⟨early, bySignal, after, hooks, place, rest⟩ := passes
  exact ⟨early, bySignal, after, hooks, place.trans (prefix_append _ _), rest⟩

namespace ShutdownPhase

variable {phase : ShutdownPhase}

/-- The events up to a phase: those of a pass if there is one. -/
def Accounts (actions : List ShutdownAction) (events : List ShutdownEvent) : ShutdownPhase → Prop
  | running rest => Passes actions (rest.map ran ++ [closed]) events
  | finished => Passes actions [] events
  | _ => events.filter isPass = []

/-- How far a handler has come towards a pass. -/
@[simp] def rank : ShutdownPhase → Nat
  | idle => 0
  | starting => 1
  | waiting => 2
  | _ => 3

theorem Accounts.append (accounts : phase.Accounts actions events) (quiet : more.filter isPass = []) :
    phase.Accounts actions (events ++ more) := by
  cases phase with
  | running | finished => exact Passes.append (quiet.symm ▸ accounts)
  | idle | starting | waiting | signalled | released =>
    exact (filter_append _ _).trans (by rw [accounts, quiet]; rfl)

theorem Accounts.later (accounts : phase.Accounts actions events) (a : ShutdownAction) :
    phase.Accounts (actions ++ [a]) events := by
  cases phase with
  | running | finished => exact Passes.later accounts a
  | idle | starting | waiting | signalled | released => exact accounts

end ShutdownPhase

namespace ShutdownHandler

variable {s : ShutdownHandler} {phase : ShutdownPhase}

theorem run_concat (actions : List ShutdownAction) (a : ShutdownAction) :
    run {} (actions ++ [a]) = (run {} actions).step a := foldl_append

/-- The handler agrees with the actions and with all it has done. -/
structure Follows (actions : List ShutdownAction) (s : ShutdownHandler) : Prop where
  hooks : IsOrder s.hooks (actions.filterMap ShutdownAction.hook?)
  registered : s.events.filterMap ShutdownEvent.hook? = actions.filterMap ShutdownAction.hook?
  phase : s.phase ≠ .idle ↔ .start ∈ actions
  started : .started ∈ s.events ↔ .start ∈ actions
  triggered : s.isTriggered ↔ .triggered ∈ s.events
  caller : s.callers ≠ 0 → [.start, .shutdown] <+ actions
  signal : ∀ name, s.signal = some name → [.start, .signal name] <+ actions
  asked : s.isTriggered ∨ s.phase = .signalled → Ask actions
  released : s.phase = .released → s.isTriggered
  accounts : s.phase.Accounts actions s.events

namespace Follows

/-- An action that leaves the handler as it is. -/
theorem later (follows : Follows actions s) {a : ShutdownAction} (quiet : a.hook? = none)
    (other : a = .start → s.phase ≠ .idle) : Follows (actions ++ [a]) s := by
  obtain ⟨hooks, registered, phase, started, triggered, caller, signal, asked, released, accounts⟩ :=
    follows
  have before : actions <+ actions ++ [a] := sublist_append_left actions [a]
  have same : .start ∈ actions ++ [a] ↔ .start ∈ actions := by
    simp only [mem_append, mem_singleton]
    exact ⟨fun found => found.elim id fun same => phase.mp (other same.symm), .inl⟩
  have known : actions.filterMap ShutdownAction.hook? =
      (actions ++ [a]).filterMap ShutdownAction.hook? := by
    rw [filterMap_append, filterMap_cons_none quiet, filterMap_nil, append_nil]
  rw [known] at hooks registered
  rw [← same] at phase started
  exact ⟨hooks, registered, phase, started, triggered, fun some => (caller some).trans before,
    fun name found => (signal name found).trans before, fun cause => (asked cause).later a,
    released, accounts.later a⟩

theorem enter (follows : Follows actions s) (busy : s.phase ≠ .idle) (next : phase ≠ .idle)
    (quiet : events.filterMap ShutdownEvent.hook? = [] ∧ .started ∉ events ∧ .triggered ∉ events)
    (asked : phase = .signalled → Ask actions) (released : phase = .released → s.isTriggered)
    (accounts : phase.Accounts actions (s.events ++ events)) :
    Follows actions (s.enter phase events) where
  hooks := follows.hooks
  registered := by simpa [ShutdownHandler.enter, quiet.1] using follows.registered
  phase := iff_of_true next (follows.phase.mp busy)
  started := by simpa [ShutdownHandler.enter, quiet.2.1] using follows.started
  triggered := by simpa [ShutdownHandler.enter, quiet.2.2] using follows.triggered
  caller := follows.caller
  signal := follows.signal
  asked cause := cause.elim (follows.asked ∘ .inl) asked
  released := released
  accounts := accounts

theorem trigger (follows : Follows actions s) (asked : Ask actions) :
    Follows actions s.trigger ∧ s.trigger.isTriggered ∧ s.trigger.phase = s.phase := by
  unfold ShutdownHandler.trigger
  split
  · rename_i done
    exact ⟨follows, done, rfl⟩
  · refine ⟨?_, rfl, rfl⟩
    exact { follows with
      registered := by simpa [filterMap_cons] using follows.registered
      started := by simpa using follows.started
      triggered := by simp
      asked := fun _ => asked
      released := fun _ => rfl
      accounts := follows.accounts.append rfl }

theorem advance (follows : Follows actions (run {} actions)) (bySignal : Bool) :
    Follows (actions ++ [.advance bySignal]) ((run {} actions).advance bySignal) := by
  have later : Follows (actions ++ [.advance bySignal]) (run {} actions) := follows.later rfl nofun
  generalize same : run {} actions = s at follows later
  have accounts := later.accounts
  unfold ShutdownHandler.advance
  cases phase : s.phase with
  | idle | finished => exact later
  | starting =>
    rw [phase] at accounts
    exact later.enter (by simp [phase]) nofun (by simp) nofun nofun (accounts.append rfl)
  | waiting =>
    rw [phase] at accounts
    have busy : s.phase ≠ .idle := by simp [phase]
    dsimp only
    split
    · rename_i chosen
      subst chosen
      split
      · rename_i name found
        have asked : Ask (actions ++ [.advance true]) :=
          .inr ⟨name, (follows.signal name found).append_right [_]⟩
        exact later.enter busy nofun (by simp) (fun _ => asked) nofun (accounts.append rfl)
      · exact later
    · split
      · rename_i triggered
        exact later.enter busy nofun (by simp) nofun (fun _ => triggered) (accounts.append rfl)
      · exact later
  | signalled =>
    obtain ⟨triggers, triggered, kept⟩ := later.trigger (later.asked (.inr phase))
    have accounts := triggers.accounts
    rw [kept, phase] at accounts
    exact triggers.enter (by simp [kept, phase]) nofun (by simp) nofun (fun _ => triggered)
      (accounts.append rfl)
  | released =>
    rw [phase] at accounts
    refine later.enter (by simp [phase]) nofun (by simp) nofun nofun ?_
    have triggered := follows.released phase
    refine ⟨actions, bySignal, [], s.hooks, prefix_rfl, follows.asked (.inl triggered), ?_⟩
    rw [same]
    exact ⟨rfl, accounts, follows.started.mpr (follows.phase.mp (by simp [phase])),
      follows.triggered.mp triggered, follows.hooks, rfl⟩
  | running rest =>
    rw [phase] at accounts
    have busy : s.phase ≠ .idle := by simp [phase]
    cases rest with
    | nil => exact later.enter busy nofun (by simp) nofun nofun (Passes.append accounts)
    | cons hook rest => exact later.enter busy nofun (by simp) nofun nofun (Passes.append accounts)

theorem step (follows : Follows actions (run {} actions)) (a : ShutdownAction) :
    Follows (actions ++ [a]) ((run {} actions).step a) := by
  have advances := follows.advance
  generalize run {} actions = s at follows advances
  unfold ShutdownHandler.step
  cases a with
  | advance bySignal => exact advances bySignal
  | register hook =>
    have before : actions <+ actions ++ [.register hook] := sublist_append_left actions _
    exact {
      hooks := by simpa using follows.hooks.register hook
      registered := by simpa using follows.registered
      phase := by simpa using follows.phase
      started := by simpa using follows.started
      triggered := by simpa using follows.triggered
      caller := fun some => (follows.caller some).trans before
      signal := fun name found => (follows.signal name found).trans before
      asked := fun cause => (follows.asked cause).later _
      released := follows.released
      accounts := (follows.accounts.append rfl).later _ }
  | start =>
    dsimp only
    split
    · rename_i idle
      have before : actions <+ actions ++ [.start] := sublist_append_left actions _
      have accounts := follows.accounts
      rw [idle] at accounts
      exact {
        hooks := by simpa [ShutdownHandler.enter, filterMap_cons] using follows.hooks
        registered := by simpa [ShutdownHandler.enter, filterMap_cons] using follows.registered
        phase := by simp [ShutdownHandler.enter]
        started := by simp [ShutdownHandler.enter]
        triggered := by simpa [ShutdownHandler.enter] using follows.triggered
        caller := fun some => (follows.caller some).trans before
        signal := fun name found => (follows.signal name found).trans before
        asked := fun cause => (follows.asked (cause.imp_right nofun)).later _
        released := nofun
        accounts := show ShutdownPhase.Accounts _ _ .starting from accounts.append rfl }
    · rename_i busy
      exact follows.later rfl fun _ => busy
  | shutdown =>
    have later := follows.later (a := .shutdown) rfl nofun
    dsimp only
    split
    · exact later
    · rename_i busy
      have started := singleton_sublist.mpr (follows.phase.mp busy)
      exact { later with caller := fun _ => started.append_right [_] }
  | trigger =>
    have later := follows.later (a := .trigger) rfl nofun
    dsimp only
    split
    · exact later
    · rename_i called
      have some : s.callers ≠ 0 := by simpa using called
      have asked : Ask (actions ++ [.trigger]) := .inl ((follows.caller some).append_right [_])
      have rest : Follows (actions ++ [.trigger]) { s with callers := s.callers - 1 } :=
        { later with caller := fun _ => later.caller some }
      exact (rest.trigger asked).1
  | signal name =>
    have later := follows.later (a := .signal name) rfl nofun
    refine { later with signal := fun other found => ?_ }
    cases sent : s.signal with
    | some earlier =>
      simp only [sent, Option.some_or] at found
      exact later.signal other (sent.trans found)
    | none =>
      simp only [sent, Option.none_or] at found
      split at found
      · rename_i waiting
        cases found
        exact (singleton_sublist.mpr (follows.phase.mp (by simp [waiting]))).append_right [_]
      · cases found

theorem of_run (actions : List ShutdownAction) : Follows actions (run {} actions) := by
  induction actions using reverseRecOn with
  | nil =>
    exact ⟨⟨.refl _, .nil, fun _ => rfl⟩, rfl, by simp [run], by simp [run], by simp [run], absurd rfl,
      nofun, nofun, nofun, rfl⟩
  | append_singleton actions a follows =>
    rw [run_concat]
    exact follows.step a

end Follows

/-- The handler gets to its end when it goes on and the calls for its end do. -/
def Closes (s : ShutdownHandler) : Prop :=
  ∃ more, (∀ a ∈ more, a = .trigger ∨ ∃ bySignal, a = .advance bySignal) ∧ closed ∈ (s.run more).events

theorem Closes.of_trigger (closes : Closes (s.step .trigger)) : Closes s := by
  obtain ⟨more, each, mem⟩ := closes
  exact ⟨.trigger :: more, forall_mem_cons.mpr ⟨.inl rfl, each⟩, mem⟩

theorem Closes.of_advance (bySignal : Bool) (closes : Closes (s.advance bySignal)) : Closes s := by
  obtain ⟨more, each, mem⟩ := closes
  exact ⟨.advance bySignal :: more, forall_mem_cons.mpr ⟨.inr ⟨bySignal, rfl⟩, each⟩, mem⟩

theorem closes_running {rest : List ShutdownHook} (running : s.phase = .running rest) : Closes s := by
  refine .of_advance false ?_
  induction rest generalizing s with
  | nil => exact ⟨[], nofun, by simp [ShutdownHandler.run, advance, running, enter]⟩
  | cons hook rest ih => exact .of_advance false (ih (by rw [advance, running]; rfl))

theorem closes_released (released : s.phase = .released) : Closes s := by
  have running : (s.advance false).phase = .running s.hooks := by
    rw [advance, released]
    rfl
  exact .of_advance false (closes_running running)

theorem closes_signalled (signalled : s.phase = .signalled) : Closes s :=
  .of_advance false (closes_released (by rw [advance, signalled]; rfl))

theorem closes_waiting (waiting : s.phase = .waiting) (triggered : s.isTriggered) : Closes s :=
  .of_advance false (closes_released (by simp [advance, waiting, triggered, enter]))

theorem closes_finished (follows : Follows actions s) (finished : s.phase = .finished) : Closes s := by
  have accounts := follows.accounts
  rw [finished] at accounts
  obtain ⟨early, bySignal, after, hooks, _, _, whole, _, _, _, _, last⟩ := accounts
  rw [append_nil] at last
  have mem : closed ∈ after.filter isPass := last ▸ mem_append_right _ mem_cons_self
  have there : closed ∈ s.events := by
    rw [whole]
    exact mem_append_right _ (mem_cons_of_mem _ (mem_filter.mp mem).1)
  exact ⟨[], nofun, there⟩

theorem trigger_eq (s : ShutdownHandler) :
    s.trigger.isTriggered ∧ s.trigger.phase = s.phase ∧ s.trigger.signal = s.signal := by
  unfold trigger
  split
  · rename_i done
    exact ⟨done, rfl, rfl⟩
  · exact ⟨rfl, rfl, rfl⟩

/-- What no step undoes. -/
structure Grows (s s' : ShutdownHandler) : Prop where
  rank : s.phase.rank ≤ s'.phase.rank
  called : s.callers ≠ 0 → s'.callers ≠ 0 ∨ s'.isTriggered
  triggered : s.isTriggered → s'.isTriggered
  sent : s.signal.isSome → s'.signal.isSome

theorem Grows.refl (s : ShutdownHandler) : Grows s s := ⟨Nat.le_refl _, .inl, id, id⟩

theorem grows_enter (rank : s.phase.rank ≤ phase.rank) (events : List ShutdownEvent) :
    Grows s (s.enter phase events) :=
  ⟨rank, .inl, id, id⟩

theorem grows_trigger (n : Nat) : Grows s { s with callers := n }.trigger := by
  obtain ⟨triggered, phase, signal⟩ := trigger_eq { s with callers := n }
  exact ⟨Nat.le_of_eq (congrArg _ phase.symm), fun _ => .inr triggered, fun _ => triggered,
    by rw [signal]; exact id⟩

theorem grows_step (s : ShutdownHandler) (a : ShutdownAction) : Grows s (s.step a) := by
  unfold step
  cases a with
  | register => exact ⟨Nat.le_refl _, .inl, id, id⟩
  | signal => exact ⟨Nat.le_refl _, .inl, id, by cases s.signal <;> simp⟩
  | start =>
    dsimp only
    split
    · rename_i idle
      exact grows_enter (by simp [idle]) _
    · exact .refl s
  | shutdown =>
    dsimp only
    split
    · exact .refl s
    · exact ⟨Nat.le_refl _, fun _ => .inl (Nat.succ_ne_zero _), id, id⟩
  | trigger =>
    dsimp only
    split
    · exact .refl s
    · exact grows_trigger _
  | advance bySignal =>
    dsimp only [advance]
    cases phase : s.phase with
    | idle | finished => exact .refl s
    | starting | released => exact grows_enter (by simp [phase]) _
    | waiting =>
      dsimp only
      split <;> split
      · exact grows_enter (by simp [phase]) _
      · exact .refl s
      · exact grows_enter (by simp [phase]) _
      · exact .refl s
    | signalled =>
      obtain ⟨_, called, triggered, sent⟩ := grows_trigger (s := s) s.callers
      exact ⟨by simp [phase, enter], called, triggered, sent⟩
    | running rest => cases rest <;> exact grows_enter (by simp [phase]) _

/-- What the last of some actions brings about and no step undoes. -/
theorem run_of_sublist {P : ShutdownHandler → Prop} (first : List ShutdownAction)
    {last : ShutdownAction} (kept : ∀ s s', Grows s s' → P s → P s')
    (brings : ∀ early, first <+ early → P ((run {} early).step last))
    (found : first ++ [last] <+ actions) : P (run {} actions) := by
  induction actions using reverseRecOn with
  | nil => simp at found
  | append_singleton actions a ih =>
    rw [run_concat]
    rw [← reverse_sublist, reverse_concat, reverse_concat, cons_sublist_cons'] at found
    rcases found with earlier | ⟨rfl, before⟩
    · exact kept _ _ (grows_step _ a) (ih (by rwa [← reverse_sublist, reverse_concat]))
    · exact brings actions (reverse_sublist.mp before)

/-- The handler has a reason to end, or has begun to. -/
def Due (s : ShutdownHandler) : Prop :=
  1 ≤ s.phase.rank ∧ (s.callers ≠ 0 ∨ s.isTriggered ∨ 2 ≤ s.phase.rank ∧ s.signal.isSome ∨ 3 ≤ s.phase.rank)

theorem Due.grows (s s' : ShutdownHandler) (grows : Grows s s') (due : Due s) : Due s' := by
  obtain ⟨rank, called, triggered, sent⟩ := grows
  obtain ⟨started, cause⟩ := due
  refine ⟨Nat.le_trans started rank, ?_⟩
  rcases cause with calls | triggers | ⟨listens, sends⟩ | past
  · exact (called calls).imp_right .inl
  · exact .inr (.inl (triggered triggers))
  · exact .inr (.inr (.inl ⟨Nat.le_trans listens rank, sent sends⟩))
  · exact .inr (.inr (.inr (Nat.le_trans past rank)))

theorem rank_of_start (started : [.start] <+ actions) : 1 ≤ (run {} actions).phase.rank := by
  have busy := (Follows.of_run actions).phase.mpr (singleton_sublist.mp started)
  cases phase : (run {} actions).phase <;> simp_all [ShutdownPhase.rank]

theorem due_of_shutdown (called : [.start, .shutdown] <+ actions) : Due (run {} actions) := by
  refine run_of_sublist [.start] Due.grows (fun early started => ?_) called
  have busy := (Follows.of_run early).phase.mpr (singleton_sublist.mp started)
  rw [step, if_neg (by simp [busy])]
  exact ⟨rank_of_start started, .inl (Nat.succ_ne_zero _)⟩

theorem due_of_signal {bySignal : Bool} {name : Text} (sent : [.start, .advance bySignal, .signal name] <+ actions) :
    Due (run {} actions) := by
  refine run_of_sublist [.start, .advance bySignal] Due.grows (fun early asked => ?_) sent
  have listens : 2 ≤ (run {} early).phase.rank := by
    refine run_of_sublist (P := fun s => 2 ≤ s.phase.rank) [.start]
      (fun s s' grows listens => Nat.le_trans listens grows.rank) (fun early started => ?_) asked
    have started := rank_of_start started
    have grows := (grows_step (run {} early) (.advance bySignal)).rank
    cases phase : (run {} early).phase with
    | idle => simp [phase] at started
    | starting => simp [step, advance, phase, enter]
    | waiting | signalled | released | running | finished =>
      exact Nat.le_trans (by simp [phase]) grows
  refine ⟨Nat.le_of_succ_le listens, ?_⟩
  cases phase : (run {} early).phase <;> simp_all [step]

theorem closes_of_triggered (follows : Follows actions s) (started : 1 ≤ s.phase.rank)
    (triggered : s.isTriggered ∨ 3 ≤ s.phase.rank) : Closes s := by
  cases phase : s.phase with
  | idle => simp [phase] at started
  | starting =>
    replace triggered := triggered.resolve_right (by simp [phase])
    exact .of_advance false (closes_waiting (by rw [advance, phase]; rfl) (by rw [advance, phase]; exact triggered))
  | waiting => exact closes_waiting phase (triggered.resolve_right (by simp [phase]))
  | signalled => exact closes_signalled phase
  | released => exact closes_released phase
  | running rest => exact closes_running phase
  | finished => exact closes_finished follows phase

theorem Due.closes (due : Due (run {} actions)) : Closes (run {} actions) := by
  have follows := Follows.of_run actions
  obtain ⟨started, calls | triggered | ⟨listens, sent⟩ | past⟩ := due
  · have triggered : ((run {} actions).step .trigger).isTriggered := by
      rw [step, if_neg (by simpa using calls)]
      exact (trigger_eq _).1
    exact .of_trigger (closes_of_triggered (follows.step .trigger)
      (Nat.le_trans started (grows_step _ .trigger).rank) (.inl triggered))
  · exact closes_of_triggered follows started (.inl triggered)
  · obtain ⟨name, sent⟩ := Option.isSome_iff_exists.mp sent
    cases phase : (run {} actions).phase with
    | idle | starting => simp [phase] at listens
    | waiting => exact .of_advance true (closes_signalled (by simp [advance, phase, sent, enter]))
    | signalled | released | running | finished =>
      exact closes_of_triggered follows started (.inr (by simp [phase]))
  · exact closes_of_triggered follows started (.inr past)

/-- Whatever the order of the actions, hooks run in at most one pass, after the handler is started and triggered. The
pass runs the hooks registered before it once each and in order, and then closes. A started handler that is called
to end, or that gets a signal when it waits for one, gets there. -/
theorem run_passes (actions : List ShutdownAction) : let s := run {} actions
    s.events.filterMap ShutdownEvent.hook? = actions.filterMap ShutdownAction.hook? ∧
      (.started ∈ s.events ↔ .start ∈ actions) ∧ (.triggered ∈ s.events → Ask actions) ∧
      (s.events.filter isPass = [] ∨ ∃ left, Passes actions left s.events) ∧
      ([.start, .shutdown] <+ actions ∨ (∃ bySignal name, [.start, .advance bySignal, .signal name] <+ actions) →
        s.Closes) := by
  have follows := Follows.of_run actions
  refine ⟨follows.registered, follows.started, fun triggered => follows.asked (.inl (follows.triggered.mpr triggered)),
    ?_, fun asked => (asked.elim due_of_shutdown fun ⟨_, _, sent⟩ => due_of_signal sent).closes⟩
  have accounts := follows.accounts
  cases phase : (run {} actions).phase with
  | idle | starting | waiting | signalled | released =>
    rw [phase] at accounts
    exact .inl accounts
  | running | finished =>
    rw [phase] at accounts
    exact .inr ⟨_, accounts⟩

/-- Calls before and after the start, a signal between a call and its trigger, and a hook that comes too late. -/
def racedActions : List ShutdownAction :=
  [.shutdown, .register ⟨"last", 90, none⟩, .register ⟨"first", 10, some "failed"⟩, .start, .start, .advance false,
    .register ⟨"second", 10, none⟩, .shutdown, .signal "TERM", .trigger, .advance true, .shutdown, .advance false,
    .advance false, .register ⟨"late", 0, none⟩, .trigger] ++ replicate 5 (.advance false)

theorem passes_racedActions : (run {} racedActions).events =
      [.registered ⟨"last", 90, none⟩, .registered ⟨"first", 10, some "failed"⟩, .started,
        .registered ⟨"second", 10, none⟩, .triggered, .received "TERM", .taken, .registered ⟨"late", 0, none⟩,
        .ran ⟨"first", 10, some "failed"⟩, .ran ⟨"second", 10, none⟩, .ran ⟨"last", 90, none⟩, .closed] ∧
    ∃ left, Passes racedActions left (run {} racedActions).events := by
  refine (and_iff_left_of_imp fun events => ?_).mpr ?_
  · refine (run_passes racedActions).2.2.2.1.resolve_left ?_
    rw [events]
    nofun
  · simp [racedActions, run, step, inOrder, enter, advance, trigger, mergeSort, replicate]

end ShutdownHandler

end ScriptBuild
