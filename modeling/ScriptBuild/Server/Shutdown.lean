import ScriptBuild.Log.Record

/-! Hooks that run when a program ends, in the order of their priorities. -/

namespace ScriptBuild

structure ShutdownHook where
  name : Text
  /-- Lower priorities run first. -/
  priority : Int
  failure : Option Text := none

namespace ShutdownHook

/-- The listener ends first, so that probes fail while the rest ends. -/
def listener (name : Text) (failure : Option Text) : ShutdownHook := ⟨name, 10, failure⟩

def watcher (failure : Option Text) : ShutdownHook := ⟨"watcher", 20, failure⟩

def worker : ShutdownHook := ⟨"temporal-worker", 30, none⟩

/-- Traces are sent late, so that the end itself is traced. -/
def tracing (failure : Option Text) : ShutdownHook := ⟨"tracing", 80, failure⟩

def graph (failure : Option Text) : ShutdownHook := ⟨"graph", 90, failure⟩

/-- The hook of a part of the program by its name, or one of its own priority. -/
def ofPart (part name : Text) (priority : Int) (failure : Option Text) : ShutdownHook :=
  if part == "http" then listener name failure
  else if part == "watcher" then watcher failure
  else if part == "temporal" then worker
  else if part == "tracing" then tracing failure
  else if part == "graph" then graph failure
  else ⟨name, priority, failure⟩

def record (h : ShutdownHook) : LogRecord :=
  match h.failure with
  | none => { level := .debug, message := "shutdown hook done", attributes := [("hook", h.name)] }
  | some e => { level := .error, message := "shutdown hook failed", attributes := [("hook", h.name), ("error", e)] }

/-- The order in which hooks run. Hooks of one priority keep the order in which they were registered. -/
def inOrder {α : Type} (hook : α → ShutdownHook) (hooks : List α) : List α :=
  hooks.mergeSort fun a b => (hook a).priority ≤ (hook b).priority

def signalRecord (signal : Text) : LogRecord :=
  { level := .info, message := "shutdown signal received", attributes := [("signal", signal)] }

end ShutdownHook

/-- What a handler does, as its users see it. -/
inductive ShutdownEvent where
  | registered (hook : ShutdownHook)
  | started
  | triggered
  | received (signal : Text)
  /-- The hooks that run are the ones registered before. -/
  | taken
  | ran (hook : ShutdownHook)
  | closed

/-- How far a handler has come. -/
inductive ShutdownPhase where
  | idle
  | starting
  | waiting
  | signalled
  | released
  | running (rest : List ShutdownHook)
  | finished

/-- Runs hooks once, after a signal or a call for shutdown. -/
structure ShutdownHandler where
  hooks : List ShutdownHook := []
  phase : ShutdownPhase := .idle
  isTriggered : Bool := false
  /-- The callers that found the handler started and have not triggered it yet. -/
  callers : Nat := 0
  signal : Option Text := none
  events : List ShutdownEvent := []

/-- The steps that may follow each other in any order. -/
inductive ShutdownAction where
  | register (hook : ShutdownHook)
  | start
  | shutdown
  | trigger
  | signal (name : Text)
  /-- The handler goes on; where both a signal and a trigger are there, it takes either. -/
  | advance (bySignal : Bool)

namespace ShutdownHandler

def enter (s : ShutdownHandler) (phase : ShutdownPhase) (events : List ShutdownEvent) : ShutdownHandler :=
  { s with phase, events := s.events ++ events }

def trigger (s : ShutdownHandler) : ShutdownHandler :=
  if s.isTriggered then s else { s with isTriggered := true, events := s.events ++ [.triggered] }

def advance (s : ShutdownHandler) (bySignal : Bool) : ShutdownHandler :=
  match s.phase with
  | .idle | .finished => s
  | .starting => s.enter .waiting []
  | .waiting =>
    if bySignal then
      match s.signal with
      | some name => s.enter .signalled [.received name]
      | none => s
    else if s.isTriggered then s.enter .released [] else s
  | .signalled => s.trigger.enter .released []
  | .released => s.enter (.running s.hooks) [.taken]
  -- The hook after a failed one runs all the same.
  | .running (hook :: rest) => s.enter (.running rest) [.ran hook]
  | .running [] => s.enter .finished [.closed]

def step (s : ShutdownHandler) : ShutdownAction → ShutdownHandler
  | .register hook =>
    { s with hooks := ShutdownHook.inOrder id (s.hooks ++ [hook]), events := s.events ++ [.registered hook] }
  | .start => if s.phase matches .idle then s.enter .starting [.started] else s
  | .shutdown => if s.phase matches .idle then s else { s with callers := s.callers + 1 }
  | .trigger => if s.callers == 0 then s else { s with callers := s.callers - 1 }.trigger
  | .signal name => { s with signal := s.signal.or (if s.phase matches .waiting then some name else none) }
  | .advance bySignal => s.advance bySignal

def run (s : ShutdownHandler) (actions : List ShutdownAction) : ShutdownHandler := actions.foldl step s

end ShutdownHandler

def ShutdownEvent.record? : ShutdownEvent → Option LogRecord
  | .received signal => some (ShutdownHook.signalRecord signal)
  | .ran hook => some hook.record
  | _ => none

/-- What is logged when a handler with these hooks is started and ends by a signal or by a call. -/
def ShutdownHook.records (signal : Option Text) (hooks : List ShutdownHook) : List LogRecord :=
  let cause : List ShutdownAction :=
    match signal with
    | some name => [.signal name, .advance true]
    | none => [.shutdown, .trigger]
  let actions := hooks.map .register ++ [.start, .advance false] ++ cause ++
    List.replicate (hooks.length + 3) (.advance false)
  (ShutdownHandler.run {} actions).events.filterMap ShutdownEvent.record?

end ScriptBuild
