import Mathlib.Data.List.Nodup
import Mathlib.Data.List.Perm.Subperm
import Mathlib.Logic.Relation
import ScriptBuild.Project.LinkOrder

/-! Link order on a finite graph. -/

namespace ScriptBuild.LinkOrder

open List

section

variable {ν : Type}

def Event.edge? : Event ν → Option (ν × ν)
  | .entered _ => none
  | .dropped u d => some (u, d)

def Event.Within (nodes : List ν) : Event ν → Prop
  | .entered u => u ∈ nodes
  | .dropped u d => u ∈ nodes ∧ d ∈ nodes

namespace Traversal

def enter (t : Traversal ν) (u : ν) : Traversal ν :=
  { t with visiting := u :: t.visiting, events := .entered u :: t.events }

def leave (t : Traversal ν) (u : ν) : Traversal ν :=
  { t with visiting := t.visiting.drop 1, done := u :: t.done }

def drop (t : Traversal ν) (u d : ν) : Traversal ν :=
  { t with events := .dropped u d :: t.events }

def dropped (t : Traversal ν) : List (ν × ν) := t.events.filterMap Event.edge?

@[simp] theorem dropped_drop (t : Traversal ν) (u d : ν) : (t.drop u d).dropped = (u, d) :: t.dropped := rfl

/-- The later state of a traversal with the same nodes on its way. -/
structure Extends (t later : Traversal ν) : Prop where
  visiting : later.visiting = t.visiting
  done : t.done <:+ later.done
  events : t.events <:+ later.events

theorem Extends.refl (t : Traversal ν) : t.Extends t :=
  ⟨rfl, suffix_refl _, suffix_refl _⟩

theorem Extends.trans {a b c : Traversal ν} (first : a.Extends b) (second : b.Extends c) : a.Extends c :=
  ⟨second.visiting.trans first.visiting, first.done.trans second.done, first.events.trans second.events⟩

theorem extends_drop (t : Traversal ν) (u d : ν) : t.Extends (t.drop u d) :=
  ⟨rfl, suffix_refl _, suffix_cons _ _⟩

theorem Extends.dropped {t later : Traversal ν} (grown : t.Extends later) : ∀ e ∈ t.dropped, e ∈ later.dropped := by
  intro e mem
  exact (grown.events.filterMap _).subset mem

/-- A traversal that has met no other than some nodes. -/
structure Within (nodes : List ν) (t : Traversal ν) : Prop where
  visiting : ∀ v ∈ t.visiting, v ∈ nodes
  done : ∀ v ∈ t.done, v ∈ nodes
  events : ∀ e ∈ t.events, e.Within nodes

namespace Within

variable {nodes : List ν} {t : Traversal ν} {u d : ν}

theorem start (nodes : List ν) : ({} : Traversal ν).Within nodes := by
  constructor <;> exact fun _ mem => absurd mem not_mem_nil

theorem enter (within : t.Within nodes) (node : u ∈ nodes) : (t.enter u).Within nodes :=
  ⟨forall_mem_cons.mpr ⟨node, within.visiting⟩, within.done, forall_mem_cons.mpr ⟨node, within.events⟩⟩

theorem leave (within : t.Within nodes) (node : u ∈ nodes) : (t.leave u).Within nodes :=
  ⟨fun v mem => within.visiting v (mem_of_mem_drop mem),
    forall_mem_cons.mpr ⟨node, within.done⟩, within.events⟩

end Within

end Traversal

variable [BEq ν]

def walk (g : ν → List ν) (fuel : Nat) (u : ν) (t : Traversal ν) : Traversal ν :=
  Id.run (visit g fuel u t)

def walkAll (g : ν → List ν) (fuel : Nat) (u : ν) (ds : List ν) (t : Traversal ν) : Traversal ν :=
  Id.run (visitAll g fuel u ds t)

def walkRoots (g : ν → List ν) (fuel : Nat) (roots : List ν) (t : Traversal ν) : Traversal ν :=
  Id.run (visitRoots g fuel roots t)

section

variable (g : ν → List ν) (fuel : Nat) (u : ν)

@[simp] theorem walk_zero (t : Traversal ν) : walk g 0 u t = t := by
  simp only [walk, visit]
  rfl

theorem walk_succ (t : Traversal ν) : walk g (fuel + 1) u t = (walkAll g fuel u (g u) (t.enter u)).leave u := by
  simp only [walk, visit]
  rfl

@[simp] theorem walkAll_nil (t : Traversal ν) : walkAll g fuel u [] t = t := by
  simp only [walkAll, visitAll]
  rfl

theorem walkAll_cons (d : ν) (ds : List ν) (t : Traversal ν) :
    walkAll g fuel u (d :: ds) t =
      if t.visiting.contains d then walkAll g fuel u ds (t.drop u d)
      else if t.done.contains d then walkAll g fuel u ds t
      else walkAll g fuel u ds (walk g fuel d t) := by
  simp only [walkAll, visitAll]
  split
  · rfl
  · split <;> rfl

@[simp] theorem walkRoots_nil (t : Traversal ν) : walkRoots g fuel [] t = t := rfl

theorem walkRoots_cons (r : ν) (roots : List ν) (t : Traversal ν) :
    walkRoots g fuel (r :: roots) t =
      if t.done.contains r then walkRoots g fuel roots t
      else walkRoots g fuel roots (walk g fuel r t) := by
  simp only [walkRoots, visitRoots]
  split <;> rfl

end

variable [LawfulBEq ν]

variable (g : ν → List ν) (fuel : Nat)

/-- The three ways to treat the next dependency. -/
theorem walkAll_cons_cases (u d : ν) (ds : List ν) (t : Traversal ν) :
    (d ∈ t.visiting ∧ walkAll g fuel u (d :: ds) t = walkAll g fuel u ds (t.drop u d)) ∨
    (d ∈ t.done ∧ walkAll g fuel u (d :: ds) t = walkAll g fuel u ds t) ∨
    (d ∉ t.visiting ++ t.done ∧ walkAll g fuel u (d :: ds) t = walkAll g fuel u ds (walk g fuel d t)) := by
  rw [walkAll_cons]
  by_cases onWay : d ∈ t.visiting
  · exact .inl ⟨onWay, by simp [onWay]⟩
  · by_cases complete : d ∈ t.done
    · exact .inr (.inl ⟨complete, by simp [onWay, complete]⟩)
    · exact .inr (.inr ⟨by simp [onWay, complete], by simp [onWay, complete]⟩)

theorem walkAll_extends {g : ν → List ν} {fuel : Nat}
    (visited : ∀ u (t : Traversal ν), t.Extends (walk g fuel u t)) (u : ν) (ds : List ν) :
    ∀ t : Traversal ν, t.Extends (walkAll g fuel u ds t) := by
  induction ds with
  | nil =>
    intro t
    simpa using Traversal.Extends.refl t
  | cons d ds ih =>
    intro t
    rcases walkAll_cons_cases g fuel u d ds t with ⟨_, same⟩ | ⟨_, same⟩ | ⟨_, same⟩
    · rw [same]
      exact (t.extends_drop u d).trans (ih (t.drop u d))
    · rw [same]
      exact ih t
    · rw [same]
      exact (visited d t).trans (ih _)

theorem walk_extends : ∀ u (t : Traversal ν), t.Extends (walk g fuel u t) := by
  induction fuel with
  | zero =>
    intro u t
    simpa using Traversal.Extends.refl t
  | succ fuel ih =>
    intro u t
    have inner := walkAll_extends ih u (g u) (t.enter u)
    rw [walk_succ]
    refine ⟨?_, ?_, ?_⟩
    · exact congrArg (drop 1) inner.visiting
    · exact inner.done.trans (suffix_cons _ _)
    · exact (suffix_cons _ _).trans inner.events

/-- Only nodes that were not seen before lose edges in a visit. -/
theorem walkAll_dropped {g : ν → List ν} {fuel : Nat}
    (visited : ∀ u t, u ∉ t.visiting ++ t.done → ∀ e ∈ (walk g fuel u t).dropped,
      e ∈ t.dropped ∨ e.1 ∉ t.visiting ++ t.done) (u : ν) (ds : List ν) :
    ∀ t, ∀ e ∈ (walkAll g fuel u ds t).dropped, e ∈ t.dropped ∨ e.1 ∉ t.visiting ++ t.done ∨ (e.1 = u ∧ e.2 ∈ ds) := by
  induction ds with
  | nil =>
    intro t e mem
    exact .inl (by simpa using mem)
  | cons d ds ih =>
    intro t e mem
    rcases walkAll_cons_cases g fuel u d ds t with ⟨_, same⟩ | ⟨_, same⟩ | ⟨fresh, same⟩
    · rw [same] at mem
      rcases ih _ e mem with old | other
      · rcases mem_cons.mp old with rfl | old
        · exact .inr (.inr ⟨rfl, mem_cons_self⟩)
        · exact .inl old
      · exact .inr (other.imp_right (And.imp_right (mem_cons_of_mem d)))
    · rw [same] at mem
      exact (ih _ e mem).imp_right (Or.imp_right (And.imp_right (mem_cons_of_mem d)))
    · rw [same] at mem
      have grown := walk_extends g fuel d t
      rcases ih _ e mem with old | unseen | ⟨source, target⟩
      · exact (visited d t fresh e old).imp id .inl
      · refine .inr (.inl ?_)
        intro seen
        apply unseen
        rw [grown.visiting]
        simp only [mem_append] at seen ⊢
        exact seen.imp id fun old => grown.done.subset old
      · exact .inr (.inr ⟨source, mem_cons_of_mem d target⟩)

theorem walk_dropped : ∀ u t, u ∉ t.visiting ++ t.done → ∀ e ∈ (walk g fuel u t).dropped,
      e ∈ t.dropped ∨ e.1 ∉ t.visiting ++ t.done := by
  induction fuel with
  | zero =>
    intro u t _ e mem
    exact .inl (by simpa using mem)
  | succ fuel ih =>
    intro u t fresh e mem
    rw [walk_succ] at mem
    rcases walkAll_dropped ih u (g u) (t.enter u) e mem with old | unseen | ⟨source, _⟩
    · exact .inl old
    · refine .inr fun seen => unseen ?_
      simp only [Traversal.enter, cons_append, mem_cons]
      exact .inr seen
    · exact .inr (source ▸ fresh)

end

open List Relation

variable {ν : Type}

def Edge (g : ν → List ν) (u d : ν) : Prop := d ∈ g u

def Precedes [BEq ν] (order : List ν) (d u : ν) : Prop := order.idxOf d < order.idxOf u

/-- What holds at every moment of a traversal that began at `roots`. -/
structure Traversal.Inv (g : ν → List ν) (roots : List ν) (t : Traversal ν) : Prop where
  nodup : (t.visiting ++ t.done).Nodup
  way : t.visiting.Pairwise fun u above => ReflTransGen (Edge g) above u
  reached : ∀ v ∈ t.visiting ++ t.done, ∃ r ∈ roots, ReflTransGen (Edge g) r v
  /-- A complete node lost exactly the edges to nodes that were not complete before it. -/
  complete : ∀ newer u older, t.done = newer ++ u :: older → ∀ d ∈ g u, (u, d) ∈ t.dropped ↔ d ∉ older
  edge : ∀ u d, (u, d) ∈ t.dropped → Edge g u d ∧ ReflTransGen (Edge g) d u
  seen : ∀ u d, (u, d) ∈ t.dropped → u ∈ t.visiting ++ t.done ∧ d ∈ t.visiting ++ t.done
  /-- A node on the way lost edges only to itself and to nodes before it on the way. -/
  back : ∀ newer u older, t.visiting = newer ++ u :: older → ∀ d, (u, d) ∈ t.dropped → d ∈ u :: older
  once : t.dropped.Nodup

namespace Traversal.Inv

variable {g : ν → List ν} {roots : List ν} {t : Traversal ν} {u : ν}

theorem start (g : ν → List ν) (roots : List ν) : Inv g roots {} where
  nodup := nodup_nil
  way := List.Pairwise.nil
  reached := by simp
  complete := by simp
  edge := by simp [dropped]
  seen := by simp [dropped]
  back := by simp
  once := nodup_nil

theorem enter (inv : t.Inv g roots) (fresh : u ∉ t.visiting ++ t.done)
    (above : ∀ v ∈ t.visiting, ReflTransGen (Edge g) v u)
    (root : ∃ r ∈ roots, ReflTransGen (Edge g) r u) : (t.enter u).Inv g roots where
  nodup := nodup_cons.mpr ⟨fresh, inv.nodup⟩
  way := pairwise_cons.mpr ⟨above, inv.way⟩
  reached := by
    exact forall_mem_cons.mpr ⟨root, inv.reached⟩
  complete := inv.complete
  edge := inv.edge
  seen := fun v d lost =>
    ⟨mem_cons_of_mem u (inv.seen v d lost).1, mem_cons_of_mem u (inv.seen v d lost).2⟩
  back := by
    intro newer v older split d lost
    rcases cons_eq_append_iff.mp split with ⟨rfl, same⟩ | ⟨rest, rfl, same⟩
    · injection same with head _
      subst head
      exact absurd (inv.seen v d lost).1 fresh
    · exact inv.back rest v older same d lost
  once := inv.once

variable {rest : List ν} (inv : t.Inv g roots) (top : t.visiting = u :: rest)

include inv top

theorem reaches_top {v : ν} (onWay : v ∈ t.visiting) : ReflTransGen (Edge g) v u := by
  have way := inv.way
  rw [top] at onWay way
  rcases mem_cons.mp onWay with rfl | below
  · exact .refl
  · exact (pairwise_cons.mp way).1 v below

theorem drop {d : ν} (onWay : d ∈ t.visiting) (edge : Edge g u d) (new : (u, d) ∉ t.dropped) :
    (t.drop u d).Inv g roots where
  nodup := inv.nodup
  way := inv.way
  reached := inv.reached
  complete := by
    intro newer v older split x target
    have mem : v ∈ t.done := by
      rw [show t.done = newer ++ v :: older from split]
      simp
    -- The source of the new edge is still on the way, so no complete node is concerned.
    have other : v ≠ u := by
      rintro rfl
      exact disjoint_of_nodup_append inv.nodup (top ▸ mem_cons_self) mem
    rw [← inv.complete newer v older split x target]
    simp [other]
  edge := by
    intro v x lost
    rcases mem_cons.mp lost with same | lost
    · cases same
      exact ⟨edge, inv.reaches_top top onWay⟩
    · exact inv.edge v x lost
  seen := by
    intro v x lost
    rcases mem_cons.mp lost with same | lost
    · cases same
      exact ⟨mem_append_left _ (top ▸ mem_cons_self), mem_append_left _ onWay⟩
    · exact inv.seen v x lost
  back := by
    intro newer v older split x lost
    rcases mem_cons.mp lost with same | lost
    · cases same
      have split : u :: rest = newer ++ u :: older := top ▸ split
      rcases cons_eq_append_iff.mp split with ⟨rfl, same⟩ | ⟨front, rfl, same⟩
      · rw [same, ← top]
        exact onWay
      · -- The node stands once on the way, so it cannot be found below itself.
        have nodup := (nodup_append.mp inv.nodup).1
        rw [top, same] at nodup
        simp at nodup
    · exact inv.back newer v older split x lost
  once := nodup_cons.mpr ⟨new, inv.once⟩

theorem leave (treated : ∀ d ∈ g u, d ∈ t.done ∨ (u, d) ∈ t.dropped) : (t.leave u).Inv g roots := by
  have visiting : (t.leave u).visiting = rest := by simp [Traversal.leave, top]
  have nodup : (u :: (rest ++ t.done)).Nodup := by
    have nodup := inv.nodup
    rwa [top] at nodup
  have members : ∀ v, v ∈ rest ++ u :: t.done ↔ v ∈ t.visiting ++ t.done := by
    simp only [top, mem_append, mem_cons]
    tauto
  refine ⟨?_, ?_, ?_, ?_, inv.edge, ?_, ?_, inv.once⟩
  · rw [visiting]
    exact nodup_middle.mpr nodup
  · have way := inv.way
    rw [top] at way
    rw [visiting]
    exact (pairwise_cons.mp way).2
  · rw [visiting]
    intro v mem
    exact inv.reached v ((members v).mp mem)
  · intro newer v older split d target
    rcases cons_eq_append_iff.mp split with ⟨rfl, same⟩ | ⟨front, rfl, same⟩
    · cases same
      constructor
      · intro lost complete
        exact disjoint_of_nodup_append inv.nodup (top ▸ inv.back [] _ rest top d lost) complete
      · intro incomplete
        exact (treated d target).resolve_left incomplete
    · exact inv.complete front v older same d target
  · rw [visiting]
    intro v d lost
    exact (inv.seen v d lost).imp (members v).mpr (members d).mpr
  · rw [visiting]
    intro newer v older split d lost
    exact inv.back (u :: newer) v older (by rw [top, split]; rfl) d lost

end Traversal.Inv

variable [BEq ν] [LawfulBEq ν] {g : ν → List ν} {roots nodes : List ν} {fuel : Nat}

omit [BEq ν] [LawfulBEq ν] in
/-- Nodes on the way are distinct, so there is one more node than they are. -/
theorem way_lt_nodes {nodes visiting : List ν} {u : ν} (nodup : (u :: visiting).Nodup)
    (inside : ∀ v ∈ u :: visiting, v ∈ nodes) : visiting.length < nodes.length := by
  have bound := (nodup.subperm inside).length_le
  simp only [length_cons] at bound
  omega

/-- A visit of a new node keeps the invariant and completes the node, if the fuel is as much as the
nodes of the graph that are not on the way. -/
def Visits (g : ν → List ν) (roots nodes : List ν) (fuel : Nat) : Prop :=
  ∀ u (t : Traversal ν), t.Inv g roots → u ∉ t.visiting ++ t.done →
    (∀ v ∈ u :: t.visiting, v ∈ nodes) → (∀ v ∈ t.visiting, ReflTransGen (Edge g) v u) →
    (∃ r ∈ roots, ReflTransGen (Edge g) r u) → nodes.length ≤ t.visiting.length + fuel →
    (walk g fuel u t).Inv g roots ∧ u ∈ (walk g fuel u t).done

theorem walkAll_inv (closed : ∀ u ∈ nodes, ∀ d ∈ g u, d ∈ nodes) (visits : Visits g roots nodes fuel)
    {u : ν} {rest : List ν} (ds : List ν) :
    ∀ t : Traversal ν, t.Inv g roots → t.visiting = u :: rest → (∀ v ∈ t.visiting, v ∈ nodes) →
      nodes.length ≤ t.visiting.length + fuel → ds.Nodup → (∀ d ∈ ds, d ∈ g u) →
      (∀ d ∈ ds, (u, d) ∉ t.dropped) →
      (walkAll g fuel u ds t).Inv g roots ∧
        ∀ d ∈ ds, d ∈ (walkAll g fuel u ds t).done ∨ (u, d) ∈ (walkAll g fuel u ds t).dropped := by
  induction ds with
  | nil =>
    intro t inv _ _ _ _ _ _
    exact ⟨by simpa using inv, by simp⟩
  | cons d ds ih =>
    intro t inv top inside enough nodup edges new
    obtain ⟨other, later⟩ := nodup_cons.mp nodup
    obtain ⟨edge, rest⟩ := forall_mem_cons.mp edges
    obtain ⟨first, unlost⟩ := forall_mem_cons.mp new
    have source : u ∈ t.visiting := top ▸ mem_cons_self
    rcases walkAll_cons_cases g fuel u d ds t with ⟨onWay, same⟩ | ⟨complete, same⟩ | ⟨fresh, same⟩
    · have dropped := inv.drop top onWay edge first
      have unlost : ∀ x ∈ ds, (u, x) ∉ (t.drop u d).dropped := by
        intro x member lost
        rcases mem_cons.mp lost with same | lost
        · cases same
          exact other member
        · exact unlost x member lost
      obtain ⟨kept, treated⟩ := ih (t.drop u d) dropped top inside enough later rest unlost
      have grown := walkAll_extends (walk_extends g fuel) u ds (t.drop u d)
      rw [same]
      exact ⟨kept, forall_mem_cons.mpr ⟨.inr (grown.dropped (u, d) mem_cons_self), treated⟩⟩
    · obtain ⟨kept, treated⟩ := ih t inv top inside enough later rest unlost
      have grown := walkAll_extends (walk_extends g fuel) u ds t
      rw [same]
      exact ⟨kept, forall_mem_cons.mpr ⟨.inl (grown.done.subset complete), treated⟩⟩
    · have above : ∀ v ∈ t.visiting, ReflTransGen (Edge g) v d :=
        fun v onWay => (inv.reaches_top top onWay).tail edge
      obtain ⟨r, member, path⟩ := inv.reached u (mem_append_left _ source)
      have inNodes := forall_mem_cons.mpr ⟨closed u (inside u source) d edge, inside⟩
      obtain ⟨visited, complete⟩ :=
        visits d t inv fresh inNodes above ⟨r, member, path.tail edge⟩ enough
      have first := walk_extends g fuel d t
      have unlost : ∀ x ∈ ds, (u, x) ∉ (walk g fuel d t).dropped := by
        intro x member lost
        rcases walk_dropped g fuel d t fresh (u, x) lost with old | unseen
        · exact unlost x member old
        · exact unseen (mem_append_left _ source)
      rw [← first.visiting] at top inside enough
      obtain ⟨kept, treated⟩ := ih (walk g fuel d t) visited top inside enough later rest unlost
      have grown := walkAll_extends (walk_extends g fuel) u ds (walk g fuel d t)
      rw [same]
      exact ⟨kept, forall_mem_cons.mpr ⟨.inl (grown.done.subset complete), treated⟩⟩

section

variable (closed : ∀ u ∈ nodes, ∀ d ∈ g u, d ∈ nodes) (unique : ∀ u, (g u).Nodup)

include closed unique

theorem walk_visits (fuel : Nat) : Visits g roots nodes fuel := by
  induction fuel with
  | zero =>
    intro u t inv fresh inside _ _ enough
    have nodup : (u :: t.visiting).Nodup :=
      nodup_cons.mpr ⟨fun mem => fresh (mem_append_left _ mem), (nodup_append.mp inv.nodup).1⟩
    have short := way_lt_nodes nodup inside
    omega
  | succ fuel ih =>
    intro u t inv fresh inside above root enough
    have entered := inv.enter fresh above root
    have unlost : ∀ d ∈ g u, (u, d) ∉ (t.enter u).dropped :=
      fun d _ lost => fresh (inv.seen u d lost).1
    have room : nodes.length ≤ (t.enter u).visiting.length + fuel := by
      simp only [Traversal.enter, length_cons]
      omega
    obtain ⟨kept, treated⟩ := walkAll_inv closed ih (g u) (t.enter u) entered rfl inside room
      (unique u) (fun d mem => mem) unlost
    have grown := walkAll_extends (walk_extends g fuel) u (g u) (t.enter u)
    rw [walk_succ]
    exact ⟨kept.leave (grown.visiting.trans rfl) treated, mem_cons_self⟩

theorem walkRoots_inv (enough : nodes.length ≤ fuel) (rs : List ν) :
    ∀ t : Traversal ν, t.Inv g roots → t.visiting = [] → (∀ r ∈ rs, r ∈ roots) → (∀ r ∈ rs, r ∈ nodes) →
      (walkRoots g fuel rs t).Inv g roots ∧ t.Extends (walkRoots g fuel rs t) ∧
        ∀ r ∈ rs, r ∈ (walkRoots g fuel rs t).done := by
  induction rs with
  | nil =>
    intro t inv _ _ _
    exact ⟨by simpa using inv, by simpa using Traversal.Extends.refl t, by simp⟩
  | cons r rs ih =>
    intro t inv idle among inside
    obtain ⟨root, amongRest⟩ := forall_mem_cons.mp among
    obtain ⟨node, insideRest⟩ := forall_mem_cons.mp inside
    rw [walkRoots_cons]
    by_cases complete : r ∈ t.done
    · obtain ⟨kept, grown, visited⟩ := ih t inv idle amongRest insideRest
      rw [if_pos (contains_iff_mem.mpr complete)]
      exact ⟨kept, grown, forall_mem_cons.mpr ⟨grown.done.subset complete, visited⟩⟩
    · rw [if_neg (by simpa using complete)]
      obtain ⟨visited, added⟩ := walk_visits closed unique fuel r t inv (by simpa [idle] using complete)
        (by simpa [idle] using node) (by simp [idle]) ⟨r, root, ReflTransGen.refl⟩ (by omega)
      have first := walk_extends g fuel r t
      obtain ⟨kept, grown, others⟩ := ih _ visited (first.visiting.trans idle) amongRest insideRest
      exact ⟨kept, first.trans grown, forall_mem_cons.mpr ⟨grown.done.subset added, others⟩⟩

end

theorem precedes_iff {front back : List ν} {u : ν} (nodup : (front ++ u :: back).Nodup) (d : ν) :
    Precedes (front ++ u :: back) d u ↔ d ∈ front := by
  have apart : u ∉ front := fun mem => disjoint_of_nodup_append nodup mem mem_cons_self
  have place : (front ++ u :: back).idxOf u = front.length := by
    rw [idxOf_append, if_neg apart, idxOf_cons_self, Nat.zero_add]
  rw [Precedes, place]
  constructor
  · intro before
    by_contra absent
    rw [idxOf_append, if_neg absent] at before
    omega
  · intro mem
    rw [idxOf_append, if_pos mem]
    exact idxOf_lt_length_of_mem mem

/-- The order in which the nodes reachable from `roots` are linked, and the edges it does not respect. -/
structure IsLinkOrder (g : ν → List ν) (roots order : List ν) (dropped : List (ν × ν)) : Prop where
  nodup : order.Nodup
  mem_iff : ∀ u, u ∈ order ↔ ∃ r ∈ roots, ReflTransGen (Edge g) r u
  once : dropped.Nodup
  dropped_iff : ∀ u ∈ order, ∀ d, Edge g u d → ((u, d) ∈ dropped ↔ ¬ Precedes order d u)
  closes : ∀ u d, (u, d) ∈ dropped → u ∈ order ∧ Edge g u d ∧ ReflTransGen (Edge g) d u

theorem isLinkOrder_walkRoots (closed : ∀ u ∈ nodes, ∀ d ∈ g u, d ∈ nodes) (unique : ∀ u, (g u).Nodup)
    (inside : ∀ r ∈ roots, r ∈ nodes) (enough : nodes.length ≤ fuel) :
    IsLinkOrder g roots (walkRoots g fuel roots {}).done.reverse
      (walkRoots g fuel roots {}).dropped.reverse := by
  obtain ⟨inv, grown, visited⟩ := walkRoots_inv closed unique enough roots {}
    (Traversal.Inv.start g roots) rfl (fun r mem => mem) inside
  generalize walkRoots g fuel roots {} = t at inv grown visited
  have idle : t.visiting = [] := grown.visiting
  have nodup : t.done.Nodup := by simpa [idle] using inv.nodup
  have seen : ∀ u d, (u, d) ∈ t.dropped → u ∈ t.done ∧ d ∈ t.done := by
    intro u d lost
    simpa [idle] using inv.seen u d lost
  have complete : ∀ u ∈ t.done, ∀ d, Edge g u d → d ∈ t.done := by
    intro u mem d edge
    obtain ⟨newer, older, split⟩ := append_of_mem mem
    by_cases before : d ∈ older
    · rw [split]
      simp [before]
    · exact (seen u d ((inv.complete newer u older split d edge).mpr before)).2
  refine ⟨nodup_reverse.mpr nodup, ?_, nodup_reverse.mpr inv.once, ?_, ?_⟩
  · intro u
    rw [mem_reverse]
    constructor
    · intro mem
      exact inv.reached u (by simpa [idle] using mem)
    · rintro ⟨r, root, path⟩
      induction path with
      | refl => exact visited r root
      | tail _ edge ih => exact complete _ ih _ edge
  · intro u mem d edge
    rw [mem_reverse] at mem
    obtain ⟨newer, older, split⟩ := append_of_mem mem
    have order : t.done.reverse = older.reverse ++ u :: newer.reverse := by simp [split]
    have distinct := nodup_reverse.mpr nodup
    rw [order] at distinct ⊢
    rw [mem_reverse, inv.complete newer u older split d edge, precedes_iff distinct, mem_reverse]
  · intro u d lost
    rw [mem_reverse] at lost
    exact ⟨mem_reverse.mpr (seen u d lost).1, inv.edge u d lost⟩

omit [LawfulBEq ν] in
theorem IsLinkOrder.dropped_eq_nil_iff {roots order : List ν} {dropped : List (ν × ν)}
    (link : IsLinkOrder g roots order dropped) : dropped = [] ↔ ∀ u ∈ order, ¬ TransGen (Edge g) u u := by
  constructor
  · rintro rfl
    have next : ∀ u ∈ order, ∀ d, Edge g u d → d ∈ order ∧ Precedes order d u := by
      intro u mem d edge
      obtain ⟨r, root, path⟩ := (link.mem_iff u).mp mem
      refine ⟨(link.mem_iff d).mpr ⟨r, root, path.tail edge⟩, ?_⟩
      by_contra late
      exact absurd ((link.dropped_iff u mem d edge).mpr late) (by simp)
    have down : ∀ u ∈ order, ∀ d, TransGen (Edge g) u d → d ∈ order ∧ Precedes order d u := by
      intro u mem d path
      induction path with
      | single edge => exact next u mem _ edge
      | tail _ edge ih =>
        obtain ⟨inner, before⟩ := ih
        obtain ⟨outer, earlier⟩ := next _ inner _ edge
        exact ⟨outer, Nat.lt_trans earlier before⟩
    intro u mem cycle
    exact Nat.lt_irrefl _ (down u mem u cycle).2
  · intro acyclic
    rw [eq_nil_iff_forall_not_mem]
    rintro ⟨u, d⟩ lost
    obtain ⟨mem, edge, path⟩ := link.closes u d lost
    exact acyclic u mem (TransGen.head' edge path)

end ScriptBuild.LinkOrder
