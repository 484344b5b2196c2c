import ScriptBuild.Json.Basic

/-! A hub that sends events to connected clients. -/

namespace ScriptBuild

structure Event where
  type : Text
  timestamp : Text
  data : Json := .null

namespace Event

def toJson (e : Event) : Json :=
  let members : List (Text × Json) := [("type", .string e.type), ("timestamp", .string e.timestamp)]
  match e.data with
  | .null => .object members
  | data => .object (members ++ [(Text.ofString "data", data)])

def frame (e : Event) : Text := "data: " ++ e.toJson.compact ++ "\n\n"

end Event

structure EventClient where
  name : Text
  isStalled : Bool := false
  isServed : Bool := true
  /-- What its stream has read, oldest first. -/
  taken : List Text := []
  queue : List Text := []

namespace EventClient

/-- How many events wait for a client, besides those that its stream has read. -/
def capacity : Nat := 16

def frames (c : EventClient) : List Text := c.taken ++ c.queue

/-- Does not wait for room: a full queue loses the event. -/
def send (c : EventClient) (e : Event) : EventClient :=
  if c.isServed && c.queue.length < capacity then { c with queue := c.queue ++ [e.frame] } else c

def read (c : EventClient) : EventClient :=
  match c.queue with
  | [] => c
  | frame :: queue => { c with taken := c.taken ++ [frame], queue }

/-- Reads what can be read before the next event. The first write of a stalled client does not end. -/
def catchUp (c : EventClient) : EventClient :=
  Nat.repeat read (if c.isStalled then 1 - c.taken.length else c.queue.length) c

end EventClient

structure EventHub where
  isClosed : Bool := false
  clients : List EventClient := []

namespace EventHub

def size (h : EventHub) : Nat := h.clients.countP (·.isServed)

/-- A client of a closed hub is not served. -/
def connect (h : EventHub) (c : EventClient) : EventHub :=
  { h with clients := h.clients ++ [{ c with isServed := !h.isClosed }] }

def publish (h : EventHub) (e : Event) : EventHub := { h with clients := h.clients.map (·.send e) }

def broadcast (h : EventHub) (e : Event) : EventHub :=
  { h with clients := (h.publish e).clients.map (·.catchUp) }

def update (h : EventHub) (name : Text) (f : EventClient → EventClient) : EventHub :=
  { h with clients := h.clients.map fun c => if c.name == name then f c else c }

def read (h : EventHub) (name : Text) : EventHub := h.update name (·.read)

def release (h : EventHub) (name : Text) : EventHub := h.update name fun c => { c with isStalled := false }.catchUp

def disconnect (h : EventHub) (name : Text) : List Text × EventHub :=
  (((h.clients.find? fun c => c.name == name).map (·.frames)).getD [],
    { h with clients := h.clients.filter fun c => c.name != name })

/-- Ends the service; clients keep what they were sent. -/
def close (h : EventHub) : EventHub :=
  { isClosed := true, clients := h.clients.map fun c => { c with isServed := false } }

end EventHub

end ScriptBuild
