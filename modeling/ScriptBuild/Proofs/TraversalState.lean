import ScriptBuild.Proofs.LinkOrder

/-! Traversals of a graph that is found on the way. -/

namespace ScriptBuild.LinkOrder

open List

variable {fuel : Nat}

variable {ν σ : Type} [BEq ν]

section Recording

variable {deps : ν → StateM σ (List ν)}

section

variable (fuel : Nat) (u : ν) (t : Traversal ν) (s : σ)

theorem visit_zero_state : visit deps 0 u t s = (t, s) := by
  simp only [visit]
  rfl

theorem visit_succ_state : visit deps (fuel + 1) u t s =
      ((visitAll deps fuel u (deps u s).1 (t.enter u) (deps u s).2).1.leave u,
        (visitAll deps fuel u (deps u s).1 (t.enter u) (deps u s).2).2) := by
  simp only [visit]
  rfl

theorem visitAll_nil_state : visitAll deps fuel u [] t s = (t, s) := by
  simp only [visitAll]
  rfl

end

theorem visitAll_cons_state (fuel : Nat) (u d : ν) (ds : List ν) (t : Traversal ν) (s : σ) :
    visitAll deps fuel u (d :: ds) t s =
      if t.visiting.contains d then visitAll deps fuel u ds (t.drop u d) s
      else if t.done.contains d then visitAll deps fuel u ds t s
      else visitAll deps fuel u ds (visit deps fuel d t s).1 (visit deps fuel d t s).2 := by
  simp only [visitAll]
  split
  · rfl
  · split <;> rfl

theorem visitRoots_cons_state (fuel : Nat) (r : ν) (roots : List ν) (t : Traversal ν) (s : σ) :
    visitRoots deps fuel (r :: roots) t s =
      if t.done.contains r then visitRoots deps fuel roots t s
      else visitRoots deps fuel roots (visit deps fuel r t s).1 (visit deps fuel r t s).2 := by
  simp only [visitRoots]
  split <;> rfl

section Preservation

variable {motive : σ → Prop} (step : ∀ u s, motive s → motive (deps u s).2)

include step

omit step in
theorem visitAll_preserves (visited : ∀ u t s, motive s → motive (visit deps fuel u t s).2) (u : ν)
    (ds : List ν) : ∀ t s, motive s → motive (visitAll deps fuel u ds t s).2 := by
  induction ds with
  | nil =>
    intro t s start
    rwa [visitAll_nil_state]
  | cons d ds ih =>
    intro t s start
    rw [visitAll_cons_state]
    split
    · exact ih _ s start
    · split
      · exact ih t s start
      · exact ih _ _ (visited d t s start)

theorem visit_preserves (fuel : Nat) : ∀ u t s, motive s → motive (visit deps fuel u t s).2 := by
  induction fuel with
  | zero =>
    intro u t s start
    rwa [visit_zero_state]
  | succ fuel ih =>
    intro u t s start
    rw [visit_succ_state]
    exact visitAll_preserves ih u _ _ _ (step u s start)

/-- What requests for dependencies keep, a traversal keeps. -/
theorem visitRoots_preserves (fuel : Nat) (roots : List ν) :
    ∀ t s, motive s → motive (visitRoots deps fuel roots t s).2 := by
  induction roots with
  | nil => exact fun t s start => start
  | cons r roots ih =>
    intro t s start
    rw [visitRoots_cons_state]
    split
    · exact ih t s start
    · exact ih _ _ (visit_preserves step fuel r t s start)

end Preservation

/-- Asking for the dependencies of a node records them, and takes nothing back. -/
structure Recorder (deps : ν → StateM σ (List ν)) (good : σ → Prop) (node : σ → ν → Prop)
    (recorded : σ → ν → Option (List ν)) : Prop where
  stays : ∀ s u, good s → node s u → good (deps u s).2
  known : ∀ s u v, good s → node s u → node s v → node (deps u s).2 v
  target : ∀ s u, good s → node s u → ∀ d ∈ (deps u s).1, node (deps u s).2 d
  records : ∀ s u, good s → node s u → recorded (deps u s).2 u = some (deps u s).1
  keeps : ∀ s u v ds, good s → node s u → recorded s v = some ds → recorded (deps u s).2 v = some ds

/-- What is known of a later state. -/
structure Later (good : σ → Prop) (node : σ → ν → Prop) (recorded : σ → ν → Option (List ν)) (s later : σ) : Prop where
  good : good later
  known : ∀ v, node s v → node later v
  keeps : ∀ v ds, recorded s v = some ds → recorded later v = some ds

variable {good : σ → Prop} {node : σ → ν → Prop} {recorded : σ → ν → Option (List ν)}

omit [BEq ν] in
theorem Later.trans {a b c : σ} (first : Later good node recorded a b)
    (second : Later good node recorded b c) : Later good node recorded a c :=
  ⟨second.good, fun v mem => second.known v (first.known v mem),
    fun v ds recorded => second.keeps v ds (first.keeps v ds recorded)⟩

/-- A part of a traversal in which states change is the same part of a traversal of any graph that agrees with the
records at its end. -/
structure Follows (good : σ → Prop) (node : σ → ν → Prop) (recorded : σ → ν → Option (List ν))
    (plain : (ν → List ν) → Traversal ν) (t : Traversal ν) (s : σ) (result : Traversal ν × σ) :
    Prop where
  later : Later good node recorded s result.2
  same : ∀ g, (∀ v ds, recorded result.2 v = some ds → g v = ds) → plain g = result.1
  complete : ∀ v ∈ result.1.done, v ∈ t.done ∨ (node result.2 v ∧ (recorded result.2 v).isSome)

omit [BEq ν] in
theorem Follows.trans {first second whole : (ν → List ν) → Traversal ν} {t : Traversal ν} {s : σ}
    {middle result : Traversal ν × σ} (head : Follows good node recorded first t s middle)
    (tail : Follows good node recorded second middle.1 middle.2 result)
    (joined : ∀ g, first g = middle.1 → whole g = second g) :
    Follows good node recorded whole t s result := by
  refine ⟨head.later.trans tail.later, fun g agrees => ?_, fun v mem => ?_⟩
  · rw [joined g (head.same g fun v ds known => agrees v ds (tail.later.keeps v ds known))]
    exact tail.same g agrees
  · rcases tail.complete v mem with earlier | recorded
    · refine (head.complete v earlier).imp id fun ⟨known, found⟩ => ?_
      obtain ⟨ds, found⟩ := Option.isSome_iff_exists.mp found
      exact ⟨tail.later.known v known, by rw [tail.later.keeps v ds found]; rfl⟩
    · exact .inr recorded

theorem visitAll_follows (visited : ∀ u t s, good s → node s u → Follows good node recorded (fun g => walk g
    fuel u t) t s (visit deps fuel u t s)) (u : ν) (ds : List ν) : ∀ t s, good s → (∀ d ∈ ds, node s d) →
      Follows good node recorded (fun g => walkAll g fuel u ds t) t s
        (visitAll deps fuel u ds t s) := by
  induction ds with
  | nil =>
    intro t s ok _
    rw [visitAll_nil_state]
    exact ⟨⟨ok, fun _ mem => mem, fun _ _ known => known⟩, fun g _ => walkAll_nil g fuel u t,
      fun v mem => .inl mem⟩
  | cons d ds ih =>
    intro t s ok nodes
    obtain ⟨first, rest⟩ := forall_mem_cons.mp nodes
    rw [visitAll_cons_state]
    split
    · rename_i onWay
      have tail := ih (t.drop u d) s ok rest
      refine ⟨tail.later, fun g agrees => ?_, tail.complete⟩
      rw [walkAll_cons, if_pos onWay]
      exact tail.same g agrees
    · rename_i offWay
      split
      · rename_i complete
        have tail := ih t s ok rest
        refine ⟨tail.later, fun g agrees => ?_, tail.complete⟩
        rw [walkAll_cons, if_neg offWay, if_pos complete]
        exact tail.same g agrees
      · rename_i incomplete
        have head := visited d t s ok first
        generalize visit deps fuel d t s = middle at head
        have tail := ih middle.1 middle.2 head.later.good
          fun x mem => head.later.known x (rest x mem)
        refine head.trans tail fun g same => ?_
        rw [walkAll_cons, if_neg offWay, if_neg incomplete, same]

theorem visit_follows (recorder : Recorder deps good node recorded) (fuel : Nat) : ∀ u t s, good s → node s u →
      Follows good node recorded (fun g => walk g fuel u t) t s (visit deps fuel u t s) := by
  induction fuel with
  | zero =>
    intro u t s ok _
    rw [visit_zero_state]
    exact ⟨⟨ok, fun _ mem => mem, fun _ _ known => known⟩, fun g _ => walk_zero g u t,
      fun v mem => .inl mem⟩
  | succ fuel ih =>
    intro u t s ok mem
    rw [visit_succ_state]
    have inner := visitAll_follows ih u (deps u s).1 (t.enter u) (deps u s).2
      (recorder.stays s u ok mem) (recorder.target s u ok mem)
    have first : Later good node recorded s (deps u s).2 :=
      ⟨recorder.stays s u ok mem, fun v => recorder.known s u v ok mem,
        fun v ds => recorder.keeps s u v ds ok mem⟩
    have found := inner.later.keeps u _ (recorder.records s u ok mem)
    refine ⟨first.trans inner.later, fun g agrees => ?_, fun v complete => ?_⟩
    · have edges : g u = (deps u s).1 := agrees u _ found
      rw [walk_succ, edges]
      exact congrArg (Traversal.leave · u) (inner.same g agrees)
    · rcases mem_cons.mp complete with rfl | earlier
      · exact .inr ⟨inner.later.known v (first.known v mem), by rw [found]; rfl⟩
      · exact inner.complete v earlier

theorem visitRoots_follows (recorder : Recorder deps good node recorded) (fuel : Nat)
    (roots : List ν) : ∀ t s, good s → (∀ r ∈ roots, node s r) →
      Follows good node recorded (fun g => walkRoots g fuel roots t) t s
        (visitRoots deps fuel roots t s) := by
  induction roots with
  | nil =>
    intro t s ok _
    exact ⟨⟨ok, fun _ mem => mem, fun _ _ known => known⟩, fun _ _ => rfl, fun v mem => .inl mem⟩
  | cons r roots ih =>
    intro t s ok nodes
    obtain ⟨first, rest⟩ := forall_mem_cons.mp nodes
    rw [visitRoots_cons_state]
    split
    · rename_i complete
      have tail := ih t s ok rest
      refine ⟨tail.later, fun g agrees => ?_, tail.complete⟩
      rw [walkRoots_cons, if_pos complete]
      exact tail.same g agrees
    · rename_i incomplete
      have head := visit_follows recorder fuel r t s ok first
      generalize visit deps fuel r t s = middle at head
      have tail := ih middle.1 middle.2 head.later.good
        fun x mem => head.later.known x (rest x mem)
      refine head.trans tail fun g same => ?_
      rw [walkRoots_cons, if_neg incomplete, same]

end Recording

section Evaluation

variable {deps : ν → StateM σ (List ν)}

/-- Visits the dependencies of a node, all with the same function. -/
def visitEach (visit : ν → Traversal ν → StateM σ (Traversal ν)) (u : ν) :
    List ν → Traversal ν → StateM σ (Traversal ν)
  | [], t => pure t
  | d :: ds, t => do
    if t.visiting.contains d then visitEach visit u ds (t.drop u d)
    else if t.done.contains d then visitEach visit u ds t
    else
      let t ← visit d t
      visitEach visit u ds t

/-- A visit by recursion on the fuel alone, which can be evaluated. -/
def visitBy (deps : ν → StateM σ (List ν)) : Nat → ν → Traversal ν → StateM σ (Traversal ν)
  | 0, _, t => pure t
  | fuel + 1, u, t => do
    let ds ← deps u
    let t ← visitEach (visitBy deps fuel) u ds (t.enter u)
    pure (t.leave u)

theorem visitEach_visit (fuel : Nat) (u : ν) (ds : List ν) :
    visitEach (visit deps fuel) u ds = visitAll deps fuel u ds := by
  induction ds with
  | nil =>
    funext t
    rw [visitEach, visitAll]
  | cons d ds ih =>
    funext t
    rw [visitEach, visitAll, ih]
    rfl

theorem visit_eq_visitBy (fuel : Nat) : visit deps fuel = visitBy deps fuel := by
  induction fuel with
  | zero =>
    funext u t
    rw [visit, visitBy]
  | succ fuel ih =>
    funext u t
    rw [visit, visitBy, ← ih]
    simp only [visitEach_visit]
    rfl

end Evaluation

section Renaming

variable {μ : Type}

def Event.map (name : ν → μ) : Event ν → Event μ
  | .entered u => .entered (name u)
  | .dropped u d => .dropped (name u) (name d)

def Traversal.map (name : ν → μ) (t : Traversal ν) : Traversal μ :=
  ⟨t.visiting.map name, t.done.map name, t.events.map (Event.map name)⟩

variable [LawfulBEq ν] [BEq μ] [LawfulBEq μ] {g : ν → List ν} {h : μ → List μ} {name : ν → μ}
  {nodes : List ν}

/-- A visit may be made with other names and with more fuel, if the fuel is as much as the nodes that are not on the
way. -/
def Renames (g : ν → List ν) (h : μ → List μ) (name : ν → μ) (nodes : List ν) (more fuel : Nat) : Prop :=
  ∀ u ∈ nodes, ∀ t : Traversal ν, t.Within nodes → (u :: t.visiting).Nodup →
    nodes.length ≤ t.visiting.length + fuel →
    walk h (fuel + more) (name u) (t.map name) = (walk g fuel u t).map name ∧ (walk g fuel u t).Within nodes

section Names

variable (distinct : ∀ u ∈ nodes, ∀ v ∈ nodes, name u = name v → u = v)

include distinct

theorem contains_map_name {d : ν} (target : d ∈ nodes) {vs : List ν} (inside : ∀ v ∈ vs, v ∈ nodes) :
    (vs.map name).contains (name d) = vs.contains d := by
  rw [Bool.eq_iff_iff, contains_iff_mem, contains_iff_mem]
  constructor
  · intro mem
    obtain ⟨v, found, same⟩ := mem_map.mp mem
    exact distinct v (inside v found) d target same ▸ found
  · exact mem_map_of_mem

theorem walkAll_map {more : Nat} (renames : Renames g h name nodes more fuel) {u : ν} (source : u ∈ nodes)
    (ds : List ν) :
    ∀ t : Traversal ν, t.Within nodes → t.visiting.Nodup → (∀ d ∈ ds, d ∈ nodes) →
      nodes.length ≤ t.visiting.length + fuel →
      walkAll h (fuel + more) (name u) (ds.map name) (t.map name) = (walkAll g fuel u ds t).map name ∧
        (walkAll g fuel u ds t).Within nodes := by
  induction ds with
  | nil =>
    intro t within _ _ _
    simpa using within
  | cons d ds ih =>
    intro t within nodup targets enough
    obtain ⟨target, rest⟩ := forall_mem_cons.mp targets
    rw [map_cons, walkAll_cons, walkAll_cons]
    simp only [Traversal.map, contains_map_name distinct target within.visiting,
      contains_map_name distinct target within.done]
    split
    · exact ih (t.drop u d) ⟨within.visiting, within.done,
        forall_mem_cons.mpr ⟨⟨source, target⟩, within.events⟩⟩ nodup rest enough
    · rename_i offWay
      split
      · exact ih t within nodup rest enough
      · have new := nodup_cons.mpr ⟨by simpa using offWay, nodup⟩
        obtain ⟨same, inside⟩ := renames d target t within new enough
        have kept := (walk_extends g fuel d t).visiting
        exact same ▸ ih _ inside (kept ▸ nodup) rest (kept ▸ enough)

variable (closed : ∀ u ∈ nodes, ∀ d ∈ g u, d ∈ nodes) (edges : ∀ u ∈ nodes, h (name u) = (g u).map name)

include closed edges

theorem walk_map (more fuel : Nat) : Renames g h name nodes more fuel := by
  induction fuel with
  | zero =>
    intro u node t within nodup enough
    have short := way_lt_nodes nodup (forall_mem_cons.mpr ⟨node, within.visiting⟩)
    omega
  | succ fuel ih =>
    intro u node t within nodup enough
    have room : nodes.length ≤ (t.enter u).visiting.length + fuel := by
      simp only [Traversal.enter, length_cons]
      omega
    obtain ⟨same, inside⟩ :=
      walkAll_map distinct ih node (g u) (t.enter u) (within.enter node) nodup (closed u node) room
    rw [Nat.add_right_comm, walk_succ, walk_succ, edges u node]
    rw [show (t.map name).enter (name u) = (t.enter u).map name from rfl, same]
    exact ⟨by simp [Traversal.leave, Traversal.map], inside.leave node⟩

/-- Nodes may be renamed before a traversal or after it, which comes to given nodes only, and fuel beyond their number
does not matter. -/
theorem walkRoots_map (enough : nodes.length ≤ fuel) (more : Nat) (roots : List ν) : ∀ t : Traversal ν,
    t.Within nodes → t.visiting = [] → (∀ r ∈ roots, r ∈ nodes) →
    walkRoots h (fuel + more) (roots.map name) (t.map name) = (walkRoots g fuel roots t).map name ∧
      (walkRoots g fuel roots t).Within nodes := by
  induction roots with
  | nil =>
    intro t within _ _
    simpa using within
  | cons r roots ih =>
    intro t within idle roots
    obtain ⟨root, rest⟩ := forall_mem_cons.mp roots
    rw [map_cons, walkRoots_cons, walkRoots_cons]
    rw [show (t.map name).done = t.done.map name from rfl, contains_map_name distinct root within.done]
    split
    · exact ih t within idle rest
    · obtain ⟨same, inside⟩ :=
        walk_map distinct closed edges more fuel r root t within (by simp [idle]) (by omega)
      rw [same]
      exact ih _ inside ((walk_extends g fuel r t).visiting.trans idle) rest

end Names

end Renaming

end ScriptBuild.LinkOrder
