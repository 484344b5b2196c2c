import ScriptBuild.Proofs.EvictedUnits
import ScriptBuild.Proofs.PlanGraphs

/-! Who depends on a unit of a plan, by the graph of the plan and by the workspace. -/

namespace ScriptBuild

open List

namespace UnitGraph

open Relation

variable {g : UnitGraph} {start id x : Text} {seen visited queue : List Text}

def newImporters (g : UnitGraph) (seen : List Text) (id : Text) : List Text :=
  (g.importersOf id).foldl
    (fun (xs : List Text) x => if seen.contains x || xs.contains x then xs else xs ++ [x]) []

theorem searchImporters_cons (g : UnitGraph) (fuel : Nat) (seen : List Text) (id : Text) (queue : List Text) :
    g.searchImporters (fuel + 1) seen (id :: queue) =
      g.searchImporters fuel (seen ++ g.newImporters seen id) (queue ++ g.newImporters seen id) := rfl

theorem mem_foldl_unseen {α : Type} [BEq α] [LawfulBEq α] (seen ys : List α) :
    ∀ xs : List α, xs.Nodup → (∀ x ∈ xs, x ∉ seen) →
      let all := ys.foldl (fun (xs : List α) x => if seen.contains x || xs.contains x then xs else xs ++ [x]) xs
      all.Nodup ∧ ∀ x, x ∈ all ↔ x ∈ xs ∨ (x ∈ ys ∧ x ∉ seen) := by
  induction ys with
  | nil => intro xs unique _; exact ⟨unique, by simp⟩
  | cons y ys ih =>
    intro xs unique apart
    rw [foldl_cons]
    by_cases known : y ∈ seen ∨ y ∈ xs
    · rw [if_pos (by simpa using known)]
      obtain ⟨nodup, members⟩ := ih xs unique apart
      exact ⟨nodup, by grind⟩
    · rw [if_neg (by simpa using known)]
      obtain ⟨nodup, members⟩ := ih (xs ++ [y]) (by grind) (by grind)
      exact ⟨nodup, by grind⟩

theorem mem_newImporters : x ∈ g.newImporters seen id ↔ g.Imports x id ∧ x ∉ seen := by
  have members := (mem_foldl_unseen seen (g.importersOf id) [] nodup_nil (by simp)).2 x
  rw [← mem_importersOf, newImporters, members]
  simp

/-- What holds at every moment of a search for the importers of a node. -/
structure Searches (g : UnitGraph) (start : Text) (visited queue : List Text) : Prop where
  nodup : (visited ++ queue).Nodup
  started : ∃ rest, visited ++ queue = start :: rest
  reached : ∀ x ∈ visited ++ queue, ReflTransGen g.Imports x start
  expanded : ∀ x ∈ visited, ∀ y, g.Imports y x → y ∈ visited ++ queue

theorem searches_start (g : UnitGraph) (start : Text) : g.Searches start [] [start] :=
  ⟨by simp, ⟨[], rfl⟩, by simpa using ReflTransGen.refl, by simp⟩

namespace Searches

theorem visit (searches : g.Searches start visited (id :: queue)) :
    g.Searches start (visited ++ [id]) (queue ++ g.newImporters (visited ++ id :: queue) id) := by
  have whole : (visited ++ [id]) ++ (queue ++ g.newImporters (visited ++ id :: queue) id) =
      (visited ++ id :: queue) ++ g.newImporters (visited ++ id :: queue) id := by simp
  obtain ⟨rest, first⟩ := searches.started
  refine ⟨?_, ?_, fun x mem => ?_, fun x mem y edge => ?_⟩
  · rw [whole]
    refine nodup_append.mpr ⟨searches.nodup, (mem_foldl_unseen _ _ [] nodup_nil (by simp)).1,
      fun a old b new same => ?_⟩
    exact (mem_newImporters.mp new).2 (same ▸ old)
  · rw [whole]
    exact ⟨rest ++ g.newImporters (visited ++ id :: queue) id, by rw [first]; rfl⟩
  · rw [whole] at mem
    rcases mem_append.mp mem with old | new
    · exact searches.reached x old
    · exact .head (mem_newImporters.mp new).1 (searches.reached id (by simp))
  · rw [whole]
    rcases mem_append.mp mem with old | last
    · exact mem_append_left _ (searches.expanded x old y edge)
    · rw [mem_singleton.mp last] at edge
      by_cases known : y ∈ visited ++ id :: queue
      · exact mem_append_left _ known
      · exact mem_append_right _ (mem_newImporters.mpr ⟨edge, known⟩)

theorem length_le (searches : g.Searches start visited queue) : (visited ++ queue).length ≤ g.edges.length + 1 := by
  have inside : ∀ x ∈ visited ++ queue, x ∈ start :: g.edges.map (·.source) := by
    intro x mem
    rcases ReflTransGen.cases_head (searches.reached x mem) with rfl | ⟨y, ⟨e, edge, source, _⟩, _⟩
    · exact mem_cons_self
    · exact mem_cons_of_mem _ (mem_map.mpr ⟨e, (mem_filter.mp edge).1, source⟩)
  have bound := (searches.nodup.subperm inside).length_le
  simpa using bound

/-- With room for all nodes the search ends with an empty queue. -/
theorem exists_searchImporters (fuel : Nat) : ∀ {visited queue : List Text},
    g.Searches start visited queue → g.edges.length + 1 ≤ visited.length + fuel →
      g.Searches start (g.searchImporters fuel (visited ++ queue) queue) [] := by
  induction fuel with
  | zero =>
    intro visited queue searches room
    have bound := searches.length_le
    rw [length_append] at bound
    have none : queue = [] := length_eq_zero_iff.mp (by omega)
    subst none
    rw [append_nil]
    exact searches
  | succ fuel ih =>
    intro visited queue searches room
    cases queue with
    | nil =>
      rw [append_nil]
      exact searches
    | cons id queue =>
      rw [searchImporters_cons]
      have later := ih searches.visit (by rw [length_append, length_singleton]; omega)
      simpa using later

end Searches

/-- The dependents of a node are in order, and they are the other nodes from which imports lead to it. -/
theorem pairwise_dependents (g : UnitGraph) (id : Text) : (g.dependents id).Pairwise (· < ·) ∧
    ∀ x, x ∈ g.dependents id ↔ x ≠ id ∧ TransGen g.Imports x id := by
  have searches := (searches_start g id).exists_searchImporters (g.edges.length + 1) (by simp)
  rw [nil_append] at searches
  obtain ⟨rest, whole⟩ := searches.started
  rw [append_nil] at whole
  have unique := searches.nodup
  have reached := searches.reached
  have expanded := searches.expanded
  rw [append_nil, whole] at unique reached expanded
  have dependents : g.dependents id = Text.sort rest := by rw [dependents, whole, drop_one, tail_cons]
  rw [dependents]
  refine ⟨Text.pairwise_lt_sort (nodup_cons.mp unique).2, fun x => ?_⟩
  rw [Text.mem_sort]
  constructor
  · intro mem
    have other : x ≠ id := fun same => (nodup_cons.mp unique).1 (same ▸ mem)
    refine ⟨other, ?_⟩
    rcases reflTransGen_iff_eq_or_transGen.mp (reached x (mem_cons_of_mem id mem)) with same | way
    · exact absurd same.symm other
    · exact way
  · rintro ⟨other, way⟩
    have all : ∀ {y}, ReflTransGen g.Imports y id → y ∈ id :: rest := by
      intro y steps
      induction steps using ReflTransGen.head_induction_on with
      | refl => exact mem_cons_self
      | head edge _ ih => simpa using expanded _ ih _ edge
    exact (mem_cons.mp (all way.to_reflTransGen)).resolve_left other

end UnitGraph

namespace Workspace

open Relation

variable {w : Workspace} {p : ProjectId} {plan : BuildPlan} {u v t : UnitId} {joins : ProjectId → ProjectId → Prop}
  {accepted : UnitId → List UnitId}

def Places (w : Workspace) (p : ProjectId) (plan : BuildPlan) : Prop :=
  ∀ u ∈ plan.reachable, w.lookup p (w.unitPath u) = some u

/-- What a unit at its place reaches is at its place too, and in the same project. -/
theorem Balanced.lookup_of_reaches (balanced : Balanced (· = ·) w accepted) (root : w.lookup p (w.unitPath u) = some u)
    (way : ReflTransGen w.DependsOn u v) : w.lookup p (w.unitPath v) = some v := by
  have accounted := balanced.accounted
  induction way with
  | refl => exact root
  | @tail s t _ edge ih =>
    obtain ⟨x, registered, project, _⟩ := accounted.filed.isRegistered ih
    have resolved : x.isResolved := by
      by_contra old
      rw [DependsOn, currentDependencies_of_not_isResolved registered.1 old] at edge
      cases edge
    rw [DependsOn, currentDependencies_of_recorded (recorded_of_isResolved registered.1 resolved)] at edge
    obtain ⟨y, there⟩ := accounted.settled registered resolved t edge
    have same := accounted.joined ((accounted.index registered ⟨y, there⟩).mpr edge) there.1 registered.1
    rw [← project, same, unitPath, there.1]
    exact there.2

section Plan

variable (balanced : Balanced joins w accepted) (current : w.IsCurrent plan) (placed : w.Places p plan)

include balanced current placed

theorem relies_iff_dependsOn (planned : v ∈ plan.reachable) : w.Relies accepted v t ↔ w.DependsOn v t := by
  have live : ∀ x ∈ plan.reachable, w.IsLive x := fun x mem =>
    balanced.accounted.filed.isLive_iff.mpr ⟨p, _, placed x mem⟩
  obtain ⟨ds, found⟩ := Option.isSome_iff_exists.mp (current.recorded v planned)
  obtain ⟨x, unit, _, same⟩ := recorded_eq_some found
  rw [Relies, balanced.of_unit? unit, same, DependsOn, currentDependencies_of_recorded found]
  refine ⟨fun relies => relies.2.2, fun target => ⟨live v planned, live t ?_, target⟩⟩
  exact current.closed v planned t (by rwa [DependsOn, currentDependencies_of_recorded found])

/-- From a unit of a plan both ways lead on within the plan. -/
theorem reflTransGen_relies_iff (planned : v ∈ plan.reachable) :
    ReflTransGen (w.Relies accepted) v t ↔ t ∈ plan.reachable ∧ ReflTransGen w.DependsOn v t := by
  have step : ∀ {x y}, x ∈ plan.reachable → (w.Relies accepted x y ↔ w.DependsOn x y) :=
    relies_iff_dependsOn balanced current placed
  constructor
  · intro way
    induction way with
    | refl => exact ⟨planned, .refl⟩
    | tail _ edge ih =>
      have target := (step ih.1).mp edge
      exact ⟨current.closed _ ih.1 _ target, ih.2.tail target⟩
  · rintro ⟨-, way⟩
    suffices t ∈ plan.reachable ∧ ReflTransGen (w.Relies accepted) v t from this.2
    induction way with
    | refl => exact ⟨planned, .refl⟩
    | tail _ edge ih => exact ⟨current.closed _ ih.1 _ edge, ih.2.tail ((step ih.1).mpr edge)⟩

/-- Of the units at the path of a planned one, no other is planned. -/
theorem mem_invalidate_iff (source : u ∈ plan.reachable) (planned : v ∈ plan.reachable) :
    v ∈ (w.invalidate (w.unitPath u)).1 ↔ ReflTransGen w.DependsOn v u := by
  have filed := balanced.accounted.filed
  refine mem_sortByPath.trans (balanced.mem_closure_atPath_iff.trans ?_)
  constructor
  · rintro ⟨q, s, there, way⟩
    obtain ⟨inside, so⟩ := (reflTransGen_relies_iff balanced current placed planned).mp way
    obtain ⟨x, unit, project, path⟩ := filed.registered there
    obtain ⟨y, again, own, _⟩ := filed.registered (placed s inside)
    rw [unit] at again
    rw [← project, Option.some.inj again, own, placed u source] at there
    rwa [Option.some.inj there]
  · intro way
    exact ⟨p, u, placed u source, (reflTransGen_relies_iff balanced current placed planned).mpr ⟨source, way⟩⟩

end Plan

/-- The dependents of a node are, once each, the other nodes from which imports lead to it. Among the units of a plan
that have nodes of their own, they are what an invalidation of the path of a unit drops with it. -/
theorem dependents_agree :
    (∀ (g : UnitGraph) (id : Text), (g.dependents id).Pairwise (· < ·) ∧
      ∀ x, x ∈ g.dependents id ↔ x ≠ id ∧ TransGen g.Imports x id) ∧
    (∀ {w : Workspace} {accepted : UnitId → List UnitId} {p : ProjectId} {plan : BuildPlan}, Ledger (· = ·) w accepted →
      w.lookup p (w.unitPath plan.root) = some plan.root →
      (∀ u ∈ plan.reachable, ReflTransGen w.DependsOn plan.root u) → w.Places p plan) ∧
    ∀ {joins : ProjectId → ProjectId → Prop} {w : Workspace} {accepted : UnitId → List UnitId} {p : ProjectId}
      {plan : BuildPlan}, Ledger joins w accepted → w.IsCurrent plan → w.Places p plan →
      (plan.reachable.map w.nodeId).Nodup → ∀ (d disk : Disk), (w.analyze d plan).2 = w ∧
        ∀ u ∈ plan.reachable, ∀ v ∈ plan.reachable, v ∈ (w.invalidate (disk.absolute (w.unitPath u))).1 ↔
          v = u ∨ w.nodeId v ∈ (w.analyze d plan).1.dependents (w.nodeId u) := by
  refine ⟨UnitGraph.pairwise_dependents,
    fun ledger root reached u planned => ledger.balanced.lookup_of_reaches root (reached u planned), ?_⟩
  intro joins w accepted p plan ledger current placed distinct d disk
  have balanced := ledger.balanced
  refine ⟨by rw [current.analyze_eq], fun u source v planned => ?_⟩
  have normal := balanced.accounted.places (placed u source)
  have apart : w.nodeId v ≠ w.nodeId u ↔ v ≠ u :=
    not_congr ⟨List.inj_on_of_nodup_map distinct planned source, fun same => same ▸ rfl⟩
  rw [disk.absolute_of_isAbsolute normal.1, normal.2, mem_invalidate_iff balanced current placed source planned,
    (UnitGraph.pairwise_dependents _ _).2, apart, current.transGen_imports_iff distinct planned source,
    reflTransGen_iff_eq_or_transGen, eq_comm]
  by_cases same : v = u
  · simp [same]
  · simp [same]

/-- The two files of the circle and the third one, with all their dependencies on record. -/
def circleUnits : Workspace := (twinUnits.dependencies sharedFiles false 2).2

/-- The first file imports the third one, and is dropped with it. -/
theorem dependents_circleUnits :
    0 ∈ (circleUnits.invalidate (sharedFiles.absolute (circleUnits.unitPath 2))).1 := by
  let plan : BuildPlan := ⟨0, [2, 1, 0], [2, 1, 0]⟩
  have place : twinUnits.lookup 0 "/src/C.kn" = some 2 := by decide +kernel
  obtain ⟨_, _, _, ledger⟩ := isKept_twinUnits.dependencies (d := sharedFiles) rfl place false
  have closed : ∀ u ∈ plan.reachable, ∀ t ∈ circleUnits.currentDependencies u, t ∈ plan.reachable := by
    decide +kernel
  have current : circleUnits.IsCurrent plan := ⟨by decide +kernel, closed⟩
  have near : ∀ u ∈ plan.reachable, u = 0 ∨ u ∈ circleUnits.currentDependencies 0 := by decide +kernel
  have placed : circleUnits.Places 0 plan := dependents_agree.2.1 ledger (by decide +kernel) fun u member =>
    (near u member).elim (fun root => root ▸ .refl) fun edge => .single edge
  have agree := (dependents_agree.2.2 ledger current placed (by decide +kernel) sharedFiles sharedFiles).2
  have edge : (circleUnits.analyze sharedFiles plan).1.Imports (circleUnits.nodeId 0) (circleUnits.nodeId 2) :=
    current.imports_iff.mpr ⟨0, by decide, 2, show 2 ∈ circleUnits.currentDependencies 0 by decide +kernel, rfl, rfl⟩
  refine (agree 2 (by decide) 0 (by decide)).mpr (Or.inr ?_)
  exact ((dependents_agree.1 _ _).2 _).mpr ⟨by decide +kernel, .single edge⟩

end Workspace

end ScriptBuild
