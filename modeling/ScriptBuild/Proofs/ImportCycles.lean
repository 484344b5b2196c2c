import Mathlib.Data.List.Chain
import Mathlib.Data.List.Nodup
import Mathlib.Data.List.Perm.Subperm
import Mathlib.Logic.Relation
import ScriptBuild.Graph.Basic

/-! Cycles of imports, as the search of a graph finds them. -/

namespace ScriptBuild

open List

open Relation

/-- Distinct nodes, each of which leads to the next one, and the last one to the first. -/
structure IsCycle (r : Text → Text → Prop) (c : List Text) : Prop where
  nodup : c.Nodup
  chain : c.IsChain r
  closes : ∃ filled : c ≠ [], r (c.getLast filled) (c.head filled)

theorem IsCycle.exists_transGen {r : Text → Text → Prop} {c : List Text} (cycle : IsCycle r c) :
    ∃ x, TransGen r x x := by
  obtain ⟨filled, closes⟩ := cycle.closes
  exact ⟨_, .tail' (relationReflTransGen_of_exists_isChain c cycle.chain filled) closes⟩

namespace CycleSearch

variable {next : Text → List Text} {nodes : List Text} {s later : CycleSearch} {node : Text}

/-- What a search keeps: where it came from, and what is complete. -/
structure Extends (s later : CycleSearch) : Prop where
  path : later.path = s.path
  done : s.done <:+ later.done
  found : s.found <:+ later.found

theorem Extends.refl (s : CycleSearch) : s.Extends s := ⟨rfl, suffix_refl _, suffix_refl _⟩

/-- What holds at every moment of a search. -/
structure Inv (next : Text → List Text) (nodes : List Text) (s : CycleSearch) : Prop where
  unique : (s.path ++ s.done).Nodup
  within : ∀ x ∈ s.path, x ∈ nodes
  chain : s.path.IsChain fun x above => x ∈ next above
  cycles : ∀ c ∈ s.found, IsCycle (fun x y => y ∈ next x) c
  /-- Until a cycle is found, everything that a complete node leads to was complete before it. -/
  settled : s.found = [] → ∀ x older, x :: older <:+ s.done → ∀ y ∈ next x, y ∈ older

/-- The node is among those that the search may come to, and the present one leads to it. -/
def IsNext (next : Text → List Text) (nodes : List Text) (s : CycleSearch) (node : Text) : Prop :=
  node ∈ nodes ∧ ∀ top rest, s.path = top :: rest → node ∈ next top

/-- A path goes on after the part up to a node that is on it. -/
theorem exists_append_of_mem {path : List Text} (mem : node ∈ path) :
    ∃ rest, path = ((path.takeWhile fun x => x != node) ++ [node]) ++ rest := by
  induction path with
  | nil => cases mem
  | cons x path ih =>
    by_cases here : x = node
    · exact ⟨path, by simp [here]⟩
    · obtain ⟨rest, whole⟩ := ih ((mem_cons.mp mem).resolve_left (Ne.symm here))
      refine ⟨rest, ?_⟩
      rw [takeWhile_cons_of_pos (by simpa using here), cons_append, cons_append, ← whole]

theorem isCycle_reverse {part : List Text} (unique : part.Nodup) (chain : part.IsChain fun x above => x ∈ next above)
    (closes : ∃ filled : part ≠ [], part.getLast filled ∈ next (part.head filled)) :
    IsCycle (fun x y => y ∈ next x) part.reverse := by
  obtain ⟨filled, edge⟩ := closes
  have turned : part.reverse ≠ [] := reverse_ne_nil_iff.mpr filled
  refine ⟨nodup_reverse.mpr unique, isChain_reverse.mpr chain, turned, ?_⟩
  rw [getLast_reverse turned, head_reverse turned]
  exact edge

section

variable (inv : s.Inv next nodes)

include inv

/-- The present node leads to one that is on the path, so the path from there on is a cycle. -/
theorem Inv.isCycle_cycleFrom (mem : node ∈ s.path) (step : s.IsNext next nodes node) :
    IsCycle (fun x y => y ∈ next x) (s.cycleFrom node) := by
  obtain ⟨rest, whole⟩ := exists_append_of_mem mem
  have unique := (nodup_append.mp inv.unique).1
  have chain := inv.chain
  have edge := step.2
  rw [whole] at unique chain edge
  have filled : (s.path.takeWhile fun x => x != node) ++ [node] ≠ [] := by simp
  refine isCycle_reverse (nodup_append.mp unique).1 chain.left_of_append ⟨filled, ?_⟩
  rw [getLast_append_singleton]
  refine edge _ (((s.path.takeWhile fun x => x != node) ++ [node]).tail ++ rest) ?_
  rw [← cons_append, cons_head_tail]

/-- A node that was not met before leaves room on the path. -/
theorem Inv.length_lt (node_mem : node ∈ nodes) (fresh : node ∉ s.path) : s.path.length < nodes.length := by
  have unique : (node :: s.path).Nodup := nodup_cons.mpr ⟨fresh, (nodup_append.mp inv.unique).1⟩
  exact (unique.subperm (forall_mem_cons.mpr ⟨node_mem, inv.within⟩)).length_le

theorem Inv.enter (step : s.IsNext next nodes node) (onPath : node ∉ s.path) (complete : node ∉ s.done) :
    Inv next nodes { s with path := node :: s.path } where
  unique := by
    refine nodup_cons.mpr ⟨fun mem => ?_, inv.unique⟩
    exact (mem_append.mp mem).elim onPath complete
  within := forall_mem_cons.mpr ⟨step.1, inv.within⟩
  chain := by
    cases path : s.path with
    | nil => exact .singleton node
    | cons top rest => exact .cons_cons (step.2 top rest path) (path ▸ inv.chain)
  cycles := inv.cycles
  settled := inv.settled

theorem Inv.leave {rest : List Text} (path : s.path = node :: rest)
    (visited : s.found = [] → ∀ y ∈ next node, y ∈ s.done) :
    Inv next nodes { s with path := rest, done := node :: s.done } where
  unique := by
    have unique := inv.unique
    rw [path] at unique
    exact nodup_middle.mpr unique
  within := fun x mem => inv.within x (path ▸ mem_cons_of_mem node mem)
  chain := by
    have chain := inv.chain
    rw [path] at chain
    exact chain.tail
  cycles := inv.cycles
  settled := by
    intro none x older part
    rcases suffix_cons_iff.mp part with same | inside
    · cases same
      exact visited none
    · exact inv.settled none x older inside

end

/-- What a visit of some nodes comes to: they are complete, or there is a cycle. -/
structure Visits (next : Text → List Text) (nodes : List Text) (s : CycleSearch) (targets : List Text)
    (later : CycleSearch) : Prop where
  inv : later.Inv next nodes
  extends_ : s.Extends later
  complete : later.found = [] → ∀ x ∈ targets, x ∈ later.done

theorem visitAll_visits {fuel : Nat}
    (visit : ∀ s node, s.Inv next nodes → s.IsNext next nodes node → nodes.length ≤ s.path.length + fuel →
      Visits next nodes s [node] (visit next fuel s node)) (targets : List Text) :
    ∀ s : CycleSearch, s.Inv next nodes → (∀ node ∈ targets, s.IsNext next nodes node) →
      nodes.length ≤ s.path.length + fuel → Visits next nodes s targets (visitAll next fuel s targets) := by
  induction targets with
  | nil =>
    intro s inv _ _
    rw [visitAll]
    exact ⟨inv, .refl s, by simp⟩
  | cons node targets ih =>
    intro s inv steps room
    rw [visitAll]
    obtain ⟨step, others⟩ := forall_mem_cons.mp steps
    have first := visit s node inv step room
    have path := first.extends_.path
    have second := ih _ first.inv (fun x mem => ⟨(others x mem).1, by rw [path]; exact (others x mem).2⟩)
      (by rw [path]; exact room)
    have grown : s.Extends _ := ⟨second.extends_.path.trans path, first.extends_.done.trans second.extends_.done,
      first.extends_.found.trans second.extends_.found⟩
    refine ⟨second.inv, grown, fun none => forall_mem_cons.mpr ⟨?_, second.complete none⟩⟩
    have before : (CycleSearch.visit next fuel s node).found = [] :=
      suffix_nil.mp (none ▸ second.extends_.found)
    exact second.extends_.done.subset (first.complete before node (mem_singleton_self node))

/-- A node that was met before is complete, or it is on the path and closes a cycle. -/
theorem Inv.visits_of_met (inv : s.Inv next nodes) (step : s.IsNext next nodes node)
    (met : node ∈ s.done ∨ node ∈ s.path) (fuel : Nat) : Visits next nodes s [node] (visit next fuel s node) := by
  rw [visit.eq_def]
  dsimp only
  by_cases complete : node ∈ s.done
  · rw [if_pos (contains_iff_mem.mpr complete)]
    exact ⟨inv, .refl s, fun _ => by simpa using complete⟩
  · have onPath := met.resolve_left complete
    rw [if_neg (by simpa using complete), if_pos (contains_iff_mem.mpr onPath)]
    refine ⟨⟨inv.unique, inv.within, inv.chain, ?_, fun none => by cases none⟩,
      ⟨rfl, suffix_refl _, suffix_cons _ _⟩, fun none => by cases none⟩
    exact forall_mem_cons.mpr ⟨inv.isCycle_cycleFrom onPath step, inv.cycles⟩

theorem visit_visits (closed : ∀ x ∈ nodes, ∀ y ∈ next x, y ∈ nodes) (fuel : Nat) :
    ∀ s node, s.Inv next nodes → s.IsNext next nodes node → nodes.length ≤ s.path.length + fuel →
      Visits next nodes s [node] (visit next fuel s node) := by
  induction fuel with
  | zero =>
    intro s node inv step room
    refine inv.visits_of_met step (.inr ?_) 0
    by_contra fresh
    have bound := inv.length_lt step.1 fresh
    omega
  | succ fuel ih =>
    intro s node inv step room
    by_cases met : node ∈ s.done ∨ node ∈ s.path
    · exact inv.visits_of_met step met _
    · rw [not_or] at met
      have inner := visitAll_visits ih (next node) _ (inv.enter step met.2 met.1)
        (fun y edge => ⟨closed node step.1 y edge, fun top rest same => by cases same; exact edge⟩)
        (by simp; omega)
      have path := inner.extends_.path
      rw [visit, if_neg (by simpa using met.1), if_neg (by simpa using met.2)]
      dsimp only
      rw [path]
      refine ⟨inner.inv.leave path inner.complete, ⟨rfl, ?_, inner.extends_.found⟩, fun _ => by simp⟩
      exact inner.extends_.done.trans (suffix_cons _ _)

/-- From a complete node everything leads to nodes that were complete before it. -/
theorem Inv.mem_older (inv : s.Inv next nodes) (none : s.found = []) {x y : Text} {older : List Text}
    (part : x :: older <:+ s.done) (way : TransGen (fun x y => y ∈ next x) x y) : y ∈ older := by
  induction way with
  | single edge => exact inv.settled none x older part _ edge
  | tail _ edge ih =>
    obtain ⟨newer, oldest, split⟩ := append_of_mem ih
    have behind : _ :: oldest <:+ older := ⟨newer, split.symm⟩
    have inside := inv.settled none _ oldest (behind.trans ((suffix_cons x older).trans part)) _ edge
    exact behind.subset (mem_cons_of_mem _ inside)

theorem Inv.not_transGen (inv : s.Inv next nodes) (none : s.found = []) {x : Text} (complete : x ∈ s.done) :
    ¬ TransGen (fun x y => y ∈ next x) x x := by
  intro way
  obtain ⟨newer, older, split⟩ := append_of_mem complete
  have inside := inv.mem_older none ⟨newer, split.symm⟩ way
  have unique := (nodup_append.mp inv.unique).2.1
  rw [split] at unique
  exact (nodup_cons.mp (nodup_append.mp unique).2.1).1 inside

end CycleSearch

namespace UnitGraph

variable {g : UnitGraph} {a b : Text}

def Imports (g : UnitGraph) (a b : Text) : Prop := ∃ e ∈ g.imports, e.source = a ∧ e.target = b

theorem mem_importsOf : b ∈ g.importsOf a ↔ g.Imports a b := by
  simp [importsOf, Imports, and_assoc]

theorem mem_importersOf : a ∈ g.importersOf b ↔ g.Imports a b := by
  simp only [importersOf, mem_map, mem_filter, beq_iff_eq, and_assoc]
  exact exists_congr fun e => and_congr_right fun _ => and_comm

def JoinsUnits (g : UnitGraph) : Prop :=
  ∀ a b, g.Imports a b → a ∈ g.units.map (·.id) ∧ b ∈ g.units.map (·.id)

theorem JoinsUnits.visits (joined : g.JoinsUnits) :
    CycleSearch.Visits g.importsOf (g.units.map (·.id)) {} (g.units.map (·.id))
      (CycleSearch.visitAll g.importsOf (g.units.length + g.imports.length + 1) {} (g.units.map (·.id))) := by
  have closed : ∀ x ∈ g.units.map (·.id), ∀ y ∈ g.importsOf x, y ∈ g.units.map (·.id) :=
    fun x _ y edge => (joined x y (mem_importsOf.mp edge)).2
  refine CycleSearch.visitAll_visits (CycleSearch.visit_visits closed _) _ _
    ⟨nodup_nil, by simp, .nil, by simp, by simp⟩
    (fun x mem => ⟨mem, fun top rest none => ?_⟩) ?_
  · cases none
  · rw [length_map]
    omega

theorem JoinsUnits.isCycle (joined : g.JoinsUnits) : ∀ c ∈ g.cycles, IsCycle g.Imports c := by
  intro c mem
  have cycle := joined.visits.inv.cycles c (mem_reverse.mp mem)
  simp only [mem_importsOf] at cycle
  exact cycle

theorem JoinsUnits.cycles_ne_nil_iff (joined : g.JoinsUnits) : g.cycles ≠ [] ↔ ∃ x, TransGen g.Imports x x := by
  constructor
  · intro some
    obtain ⟨c, mem⟩ := exists_mem_of_ne_nil _ some
    exact (joined.isCycle c mem).exists_transGen
  · rintro ⟨x, way⟩ none
    have visits := joined.visits
    have nothing := reverse_eq_nil_iff.mp none
    obtain ⟨y, edge, _⟩ := TransGen.head'_iff.mp way
    have complete := visits.complete nothing x (joined x y edge).1
    refine visits.inv.not_transGen nothing complete ?_
    simp only [mem_importsOf]
    exact way

end UnitGraph

end ScriptBuild
