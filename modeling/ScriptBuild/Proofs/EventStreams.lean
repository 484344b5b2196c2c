import ScriptBuild.Server.Events

/-! What the clients of a hub receive, in every order of subscriptions, broadcasts and reads. -/

namespace ScriptBuild

open List EventClient

inductive HubAction where
  | subscribe (name : Text)
  | unsubscribe (name : Text)
  | broadcast (event : Event)
  | read (name : Text)

namespace HubAction

def frame? : HubAction → Option Text
  | .broadcast e => some e.frame
  | _ => none

/-- Whether an action is a broadcast, or one of this client. -/
def concerns (name : Text) : HubAction → Bool
  | .subscribe n | .unsubscribe n | .read n => n == name
  | .broadcast _ => true

end HubAction

namespace EventHub

variable {h g : EventHub} {name : Text} {c : EventClient} {a : HubAction} {actions before after : List HubAction}

def step (h : EventHub) : HubAction → EventHub
  | .subscribe name => h.connect { name }
  | .unsubscribe name => (h.disconnect name).2
  | .broadcast e => h.publish e
  | .read name => h.read name

def run (h : EventHub) (actions : List HubAction) : EventHub := actions.foldl step h

/-- The client of a name, which stands for one channel. -/
def client? (h : EventHub) (name : Text) : Option EventClient := h.clients.find? fun c => c.name == name

/-- The frame of an event that is broadcast while the queue of a client has room. -/
def accepts (h : EventHub) (name : Text) (a : HubAction) : List Text :=
  if (h.client? name).any fun c => c.queue.length < capacity then a.frame?.toList else []

def accepted (h : EventHub) (name : Text) : List HubAction → List Text
  | [] => []
  | a :: actions => h.accepts name a ++ (h.step a).accepted name actions

theorem accepted_sublist (h : EventHub) (name : Text) (actions : List HubAction) :
    h.accepted name actions <+ actions.filterMap HubAction.frame? := by
  induction actions generalizing h with
  | nil => exact .slnil
  | cons a actions ih =>
    have first : h.accepts name a <+ a.frame?.toList := by
      rw [accepts]
      split
      · exact .refl _
      · exact nil_sublist _
    have whole : (a :: actions).filterMap HubAction.frame? = a.frame?.toList ++ actions.filterMap HubAction.frame? := by
      cases frame : a.frame? <;> simp [frame]
    rw [whole]
    exact first.append (ih (h.step a))

/-- What an action makes of the client of a name in an open hub. -/
def view (name : Text) (client : Option EventClient) : HubAction → Option EventClient
  | .subscribe n => if n = name then client.or (some { name }) else client
  | .unsubscribe n => if n = name then none else client
  | .broadcast e => client.map (·.send e)
  | .read n => if n = name then client.map (·.read) else client

theorem view_of_not_concerns (other : a.concerns name = false) (client : Option EventClient) :
    view name client a = client := by
  cases a with
  | broadcast e => cases other
  | subscribe n | unsubscribe n | read n => exact if_neg (beq_eq_false_iff_ne.mp other)

theorem name_send (c : EventClient) (e : Event) : (c.send e).name = c.name := by
  rw [send]
  split <;> rfl

theorem name_read (c : EventClient) : c.read.name = c.name := by
  rw [EventClient.read]
  split <;> rfl

theorem read_keeps (c : EventClient) :
    c.read.isServed = c.isServed ∧ c.read.frames = c.frames ∧ c.read.queue.length ≤ c.queue.length := by
  rw [EventClient.read]
  split
  · exact ⟨rfl, rfl, Nat.le_refl _⟩
  · rename_i frame queue queued
    simp [frames, queued]

theorem client?_step (opened : h.isClosed = false) (name : Text) (a : HubAction) :
    (h.step a).client? name = view name (h.client? name) a := by
  cases a with
  | subscribe n =>
    by_cases same : n = name <;> simp [step, connect, client?, view, opened, same]
  | unsubscribe n =>
    by_cases same : n = name
    · simp [step, disconnect, client?, view, same]
    · simp only [step, disconnect, client?, view, find?_filter, if_neg same]
      congr 1
      funext c
      by_cases own : c.name = name <;> simp [own, Ne.symm same]
  | broadcast e => simp [step, publish, client?, view, find?_map, Function.comp_def, name_send]
  | read n =>
    have named : ∀ c : EventClient, (if c.name == n then c.read else c).name = c.name := fun c => by
      split
      · exact name_read c
      · rfl
    simp only [step, read, update, client?, view, find?_map, Function.comp_def, named]
    cases found : h.clients.find? fun c => c.name == name with
    | none => simp
    | some c =>
      have own : c.name = name := by simpa using find?_some found
      by_cases same : n = name
      · simp [own, same]
      · simp [own, same, Ne.symm same]

theorem run_append (h : EventHub) (before after : List HubAction) : h.run (before ++ after) = (h.run before).run after :=
  foldl_append

theorem isClosed_step (h : EventHub) (a : HubAction) : (h.step a).isClosed = h.isClosed := by
  cases a <;> rfl

theorem isClosed_run (h : EventHub) (actions : List HubAction) : (h.run actions).isClosed = h.isClosed := by
  induction actions generalizing h with
  | nil => rfl
  | cons a actions ih => exact (ih (h.step a)).trans (isClosed_step h a)

/-- A client is what the broadcasts and its own actions make of it. -/
theorem client?_run (opened : h.isClosed = false) (name : Text) (actions : List HubAction) :
    (h.run actions).client? name = (actions.filter (·.concerns name)).foldl (view name) (h.client? name) := by
  induction actions generalizing h with
  | nil => rfl
  | cons a actions ih =>
    rw [run, foldl_cons, ← run, ih ((isClosed_step h a).trans opened), client?_step opened, filter_cons]
    split
    · rfl
    · rename_i other
      rw [view_of_not_concerns (Bool.eq_false_iff.mpr other)]

/-- A client that is served, with no more events in its queue than it can hold. -/
structure Serves (h : EventHub) (name : Text) (c : EventClient) : Prop where
  opened : h.isClosed = false
  found : h.client? name = some c
  served : c.isServed
  bounded : c.queue.length ≤ capacity

theorem Serves.step (serves : h.Serves name c) (stays : a ≠ .unsubscribe name) :
    ∃ later, (h.step a).Serves name later ∧ later.frames = c.frames ++ h.accepts name a := by
  have opened := (isClosed_step h a).trans serves.opened
  have found := client?_step serves.opened name a
  rw [serves.found] at found
  have quiet : a.frame? = none → h.accepts name a = [] := fun none => by simp [accepts, none]
  cases a with
  | subscribe n =>
    refine ⟨c, ⟨opened, found.trans ?_, serves.served, serves.bounded⟩, by simp [quiet rfl]⟩
    simp [view]
  | unsubscribe n =>
    have other : n ≠ name := fun same => stays (same ▸ rfl)
    exact ⟨c, ⟨opened, found.trans (if_neg other), serves.served, serves.bounded⟩, by simp [quiet rfl]⟩
  | broadcast e =>
    by_cases room : c.queue.length < capacity
    · have sent : c.send e = { c with queue := c.queue ++ [e.frame] } := if_pos (by simp [serves.served, room])
      refine ⟨_, ⟨opened, found.trans (congrArg some sent), serves.served, ?_⟩, ?_⟩
      · rw [length_append]
        exact room
      · simp [frames, accepts, serves.found, room, HubAction.frame?]
    · have lost : c.send e = c := if_neg (by simp [room])
      refine ⟨c, ⟨opened, found.trans (congrArg some lost), serves.served, serves.bounded⟩, ?_⟩
      simp [accepts, serves.found, room]
  | read n =>
    rw [quiet rfl, append_nil]
    by_cases same : n = name
    · obtain ⟨served, frames, fewer⟩ := read_keeps c
      exact ⟨c.read, ⟨opened, found.trans (if_pos same), served.trans serves.served,
        Nat.le_trans fewer serves.bounded⟩, frames⟩
    · exact ⟨c, ⟨opened, found.trans (if_neg same), serves.served, serves.bounded⟩, rfl⟩

theorem Serves.run (serves : h.Serves name c) (stays : .unsubscribe name ∉ actions) :
    ∃ later, (h.run actions).Serves name later ∧ later.frames = c.frames ++ h.accepted name actions := by
  induction actions generalizing h c with
  | nil => exact ⟨c, serves, (append_nil _).symm⟩
  | cons a actions ih =>
    rw [mem_cons, not_or] at stays
    obtain ⟨next, step, frames⟩ := serves.step (Ne.symm stays.1)
    obtain ⟨later, run, more⟩ := ih step stays.2
    exact ⟨later, run, by rw [more, frames, append_assoc]; rfl⟩

/-- Whatever else happens, from its subscription on a client receives the broadcasts that its queue has room for, in
their order, and nothing depends on what other clients do. -/
theorem exists_client_run (new : (run {} before).client? name = none) (stays : .unsubscribe name ∉ after) :
    ∃ c, (run {} (before ++ .subscribe name :: after)).client? name = some c ∧
      c.taken ++ c.queue <+ after.filterMap HubAction.frame? ∧ c.queue.length ≤ 16 ∧
      c.taken ++ c.queue = (run {} (before ++ [.subscribe name])).accepted name after ∧
      ∀ others actions, (run {} others).client? name = none →
        actions.filter (·.concerns name) = after.filter (·.concerns name) →
        (run {} (others ++ .subscribe name :: actions)).client? name = some c := by
  have subscribed : ∀ {others}, (run {} others).client? name = none →
      (run {} (others ++ [.subscribe name])).Serves name { name } := by
    intro others none
    refine ⟨isClosed_run _ _, ?_, rfl, Nat.zero_le _⟩
    have found := client?_step (isClosed_run {} others) name (.subscribe name)
    rw [none] at found
    rw [run_append]
    exact found.trans (by simp [view])
  have split : ∀ others actions : List HubAction, run {} (others ++ .subscribe name :: actions) =
      (run {} (others ++ [.subscribe name])).run actions := by
    intro others actions
    rw [append_cons, run_append]
  have first := subscribed new
  obtain ⟨c, serves, frames⟩ := first.run stays
  refine ⟨c, ?_, ?_, serves.bounded, frames, fun others actions none same => ?_⟩
  · rw [split]
    exact serves.found
  · rw [← EventClient.frames, frames]
    exact accepted_sublist _ name after
  · have start := subscribed none
    rw [split, client?_run start.opened, start.found, same, ← serves.found, client?_run first.opened, first.found]

/-- A client that reads one of 18 events receives 17 of them, whatever another client does. -/
theorem exists_client_run_lag : ∃ c, (run {} ([.subscribe "b"] ++ .subscribe "a" ::
      (.broadcast ⟨"t", "1", .null⟩ :: .read "a" :: .read "b" :: replicate 17 (.broadcast ⟨"t", "2", .null⟩)))).client?
        "a" = some c ∧ (c.taken ++ c.queue).length = 17 := by
  obtain ⟨c, found, _, _, frames, _⟩ := @exists_client_run "a" [.subscribe "b"]
    (.broadcast ⟨"t", "1", .null⟩ :: .read "a" :: .read "b" :: replicate 17 (.broadcast ⟨"t", "2", .null⟩))
    (by decide) (by simp)
  exact ⟨c, found, (congrArg length frames).trans (by decide +kernel)⟩

end EventHub

end ScriptBuild
