/-! Link order: every node after the nodes it depends on. -/

namespace ScriptBuild

namespace LinkOrder

inductive Event (ν : Type) where
  /-- The dependencies of a node were asked for. -/
  | entered (node : ν)
  /-- An edge was dropped. -/
  | dropped (node dependency : ν)

structure Traversal (ν : Type) where
  /-- The nodes on the way to the present one, the innermost first. -/
  visiting : List ν := []
  /-- The nodes that are complete, the last one first. -/
  done : List ν := []
  /-- The last event first. -/
  events : List (Event ν) := []

variable {ν : Type} [BEq ν] {m : Type → Type} [Monad m]

mutual

/-- Visits a node that was not visited before. `fuel` bounds the depth. -/
def visit (deps : ν → m (List ν)) : Nat → ν → Traversal ν → m (Traversal ν)
  | 0, _, t => pure t
  | fuel + 1, u, t => do
    let ds ← deps u
    let t ← visitAll deps fuel u ds
      { t with visiting := u :: t.visiting, events := .entered u :: t.events }
    pure { t with visiting := t.visiting.drop 1, done := u :: t.done }

def visitAll (deps : ν → m (List ν)) : Nat → ν → List ν → Traversal ν → m (Traversal ν)
  | _, _, [], t => pure t
  | fuel, u, d :: ds, t => do
    if t.visiting.contains d then
      visitAll deps fuel u ds { t with events := .dropped u d :: t.events }
    else if t.done.contains d then visitAll deps fuel u ds t
    else
      let t ← visit deps fuel d t
      visitAll deps fuel u ds t

end

def visitRoots (deps : ν → m (List ν)) (fuel : Nat) : List ν → Traversal ν → m (Traversal ν)
  | [], t => pure t
  | root :: roots, t => do
    if t.done.contains root then visitRoots deps fuel roots t
    else
      let t ← visit deps fuel root t
      visitRoots deps fuel roots t

def traverse (deps : ν → m (List ν)) (fuel : Nat) (roots : List ν) : m (Traversal ν) :=
  visitRoots deps fuel roots {}

end LinkOrder

end ScriptBuild
