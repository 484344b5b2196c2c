import ScriptBuild.Graph.Analysis
import ScriptBuild.Proofs.ImportCycles
import ScriptBuild.Proofs.Reachable

/-! The graph of a plan whose dependencies are recorded. -/

namespace ScriptBuild

open List UnitGraph

open Relation

theorem CompilationUnit.nodeKind_ne_package (u : CompilationUnit) : u.nodeKind ≠ .package := by
  unfold nodeKind
  intro same
  repeat' split at same
  all_goals cases same

namespace UnitGraph

variable {g : UnitGraph} {ids : List Text}

theorem hasNode_iff {id : Text} : g.hasNode id ↔ id ∈ g.nodes.map (·.id) := by
  simp [hasNode]

/-- The units of a graph that has no imports so far, and whose packages are told from units by their names. -/
structure Lists (g : UnitGraph) (ids : List Text) : Prop where
  packages : ∀ n ∈ g.nodes, n.kind = .package → ∃ name : Text, n.id = "pkg:" ++ name
  units : ∀ {x}, x ∈ g.units.map (·.id) ↔ x ∈ ids
  plain : g.imports = []

theorem lists_start (root : Text) : Lists { root } [] := ⟨by simp, by simp [units], rfl⟩

namespace Lists

variable (lists : g.Lists ids)

include lists

theorem hasNode_of_mem {x : Text} (mem : x ∈ ids) : g.hasNode x := by
  obtain ⟨n, unit, same⟩ := mem_map.mp (lists.units.mpr mem)
  exact hasNode_iff.mpr (mem_map.mpr ⟨n, (mem_filter.mp unit).1, same⟩)

theorem mem_of_hasNode (u : CompilationUnit) (there : g.hasNode u.nodeId) : u.nodeId ∈ ids := by
  obtain ⟨n, node, same⟩ := mem_map.mp (hasNode_iff.mp there)
  refine lists.units.mp (mem_map.mpr ⟨n, mem_filter.mpr ⟨node, ?_⟩, same⟩)
  refine bne_iff_ne.mpr fun package => ?_
  obtain ⟨name, named⟩ := lists.packages n node package
  have clash := same.symm.trans named
  unfold CompilationUnit.nodeId at clash
  split at clash <;> cases clash

theorem addPackage (name : Text) :
    Lists { g with nodes := g.nodes ++ [{ id := "pkg:" ++ name, name, kind := .package, package := name }] }
      ids := by
  refine ⟨fun n mem package => ?_, fun {x} => ?_, lists.plain⟩
  · rcases mem_append.mp mem with old | new
    · exact lists.packages n old package
    · exact ⟨name, by rw [mem_singleton.mp new]⟩
  · rw [← lists.units]
    simp [UnitGraph.units]

theorem addUnit (u : CompilationUnit) (isEmitted : Bool) : (g.addUnit u isEmitted).Lists (ids ++ [u.nodeId]) := by
  have filed : Lists (if g.hasNode ("pkg:" ++ u.packageName) then g
        else { g with nodes := g.nodes ++
          [{ id := "pkg:" ++ u.packageName, name := u.packageName, kind := .package, package := u.packageName }] })
      ids := by
    split
    · exact lists
    · exact lists.addPackage u.packageName
  unfold UnitGraph.addUnit
  dsimp only
  generalize (if g.hasNode ("pkg:" ++ u.packageName) then g else _) = g' at filed
  split
  · rename_i there
    have known := filed.mem_of_hasNode u there
    refine ⟨filed.packages, fun {x} => filed.units.trans ?_, filed.plain⟩
    rw [mem_append, mem_singleton]
    exact ⟨.inl, fun mem => mem.elim id fun same => same ▸ known⟩
  · refine ⟨fun n mem package => ?_, fun {x} => ?_, ?_⟩
    · rcases mem_append.mp mem with old | new
      · exact filed.packages n old package
      · rw [mem_singleton.mp new] at package
        exact absurd package u.nodeKind_ne_package
    · have apart : (u.nodeKind != .package) = true := bne_iff_ne.mpr u.nodeKind_ne_package
      rw [mem_append, ← filed.units]
      simp [UnitGraph.units, apart]
    · rw [imports, filter_append]
      exact append_eq_nil_iff.mpr ⟨filed.plain, rfl⟩

end Lists

theorem imports_addPackageDependencies (g : UnitGraph) : g.addPackageDependencies.imports = g.imports := by
  rw [imports, addPackageDependencies, filter_append]
  refine append_right_eq_self.mpr (filter_eq_nil_iff.mpr fun e mem => ?_)
  obtain ⟨pair, _, rfl⟩ := mem_map.mp mem
  simp

end UnitGraph

namespace Workspace

variable {w : Workspace} {d : Disk} {plan : BuildPlan} {u v : UnitId} {a b : Text}

/-- A plan that holds what its units depend on, and all of it is recorded. -/
structure IsCurrent (w : Workspace) (plan : BuildPlan) : Prop where
  recorded : ∀ u ∈ plan.reachable, (w.recorded u).isSome
  closed : ∀ u ∈ plan.reachable, ∀ t, w.DependsOn u t → t ∈ plan.reachable

def importEdges (w : Workspace) (u : UnitId) : List GraphEdge :=
  (w.currentDependencies u).map fun t => { source := w.nodeId u, target := w.nodeId t, kind := .imports }

theorem addImports_of_recorded {g : UnitGraph} (known : (w.recorded u).isSome)
    (there : ∀ t, w.DependsOn u t → g.hasNode (w.nodeId t)) (d : Disk) :
    addImports d (g, w) u = ({ g with edges := g.edges ++ w.importEdges u }, w) := by
  obtain ⟨ds, found⟩ := Option.isSome_iff_exists.mp known
  have targets :
      ((w.currentDependencies u).map w.nodeId).filter g.hasNode = (w.currentDependencies u).map w.nodeId := by
    refine filter_eq_self.mpr fun x mem => ?_
    obtain ⟨t, target, rfl⟩ := mem_map.mp mem
    exact there t target
  rw [currentDependencies_of_recorded found] at targets
  simp [addImports, dependencies_of_recorded found, UnitGraph.addImports, targets, importEdges,
    currentDependencies_of_recorded found]

/-- Adding the imports of units whose dependencies are recorded leaves the workspace alone. -/
theorem foldl_addImports (d : Disk) : ∀ (units : List UnitId) (g : UnitGraph),
    (∀ u ∈ units, (w.recorded u).isSome ∧ ∀ t, w.DependsOn u t → g.hasNode (w.nodeId t)) →
      units.foldl (addImports d) (g, w) = ({ g with edges := g.edges ++ units.flatMap w.importEdges }, w) := by
  intro units
  induction units with
  | nil => intro g _; simp
  | cons u units ih =>
    intro g good
    obtain ⟨known, there⟩ := good u mem_cons_self
    rw [foldl_cons, addImports_of_recorded known there,
      ih { g with edges := g.edges ++ w.importEdges u } fun v mem => good v (mem_cons_of_mem u mem)]
    simp

def listUnit (w : Workspace) (plan : BuildPlan) (g : UnitGraph) (id : UnitId) : UnitGraph :=
  match w.unit? id with
  | none => g
  | some u => g.addUnit u (plan.emitted.contains id)

def listUnits (w : Workspace) (plan : BuildPlan) : UnitGraph :=
  plan.reachable.foldl (w.listUnit plan) { root := w.nodeId plan.root }

theorem analyze_eq (w : Workspace) (d : Disk) (plan : BuildPlan) : w.analyze d plan =
      ((plan.reachable.foldl (addImports d) (w.listUnits plan, w)).1.addPackageDependencies,
        (plan.reachable.foldl (addImports d) (w.listUnits plan, w)).2) := rfl

namespace IsCurrent

variable (current : w.IsCurrent plan)

include current

theorem lists_listUnits : (w.listUnits plan).Lists (plan.reachable.map w.nodeId) := by
  have all : ∀ (units : List UnitId) {g : UnitGraph} {ids : List Text}, g.Lists ids →
      (∀ u ∈ units, (w.recorded u).isSome) → (units.foldl (w.listUnit plan) g).Lists (ids ++ units.map w.nodeId) := by
    intro units
    induction units with
    | nil => intro g ids lists _; simpa using lists
    | cons u units ih =>
      intro g ids lists known
      obtain ⟨ds, found⟩ := Option.isSome_iff_exists.mp (known u mem_cons_self)
      obtain ⟨x, unit, _⟩ := recorded_eq_some found
      have listed : w.listUnit plan g u = g.addUnit x (plan.emitted.contains u) := by rw [listUnit, unit]
      have named : w.nodeId u = x.nodeId := by rw [nodeId, unit]; rfl
      have later := ih (lists.addUnit x (plan.emitted.contains u)) fun v mem =>
        known v (mem_cons_of_mem u mem)
      rw [foldl_cons, listed, map_cons, named, append_cons]
      exact later
  exact all plan.reachable (lists_start (w.nodeId plan.root)) current.recorded

theorem analyze_eq (d : Disk) : w.analyze d plan = (addPackageDependencies
        { w.listUnits plan with edges := (w.listUnits plan).edges ++ plan.reachable.flatMap w.importEdges }, w) := by
  have lists := current.lists_listUnits
  rw [Workspace.analyze_eq, foldl_addImports d plan.reachable _ fun u mem => ⟨current.recorded u mem, ?_⟩]
  exact fun t target => lists.hasNode_of_mem (mem_map_of_mem (current.closed u mem t target))

theorem imports_analyze (d : Disk) : (w.analyze d plan).1.imports = plan.reachable.flatMap w.importEdges := by
  have lists := current.lists_listUnits
  have edges : (plan.reachable.flatMap w.importEdges).filter (fun e => e.kind == .imports) =
      plan.reachable.flatMap w.importEdges := by
    refine filter_eq_self.mpr fun e mem => ?_
    obtain ⟨u, _, edge⟩ := mem_flatMap.mp mem
    obtain ⟨t, _, rfl⟩ := mem_map.mp edge
    rfl
  have none : (w.listUnits plan).edges.filter (fun e => e.kind == .imports) = [] := lists.plain
  rw [current.analyze_eq, imports_addPackageDependencies, imports, filter_append, none, edges,
    nil_append]

theorem imports_iff : (w.analyze d plan).1.Imports a b ↔
    ∃ u ∈ plan.reachable, ∃ t, w.DependsOn u t ∧ w.nodeId u = a ∧ w.nodeId t = b := by
  rw [UnitGraph.Imports, current.imports_analyze]
  constructor
  · rintro ⟨e, mem, rfl, rfl⟩
    obtain ⟨u, planned, edge⟩ := mem_flatMap.mp mem
    obtain ⟨t, target, rfl⟩ := mem_map.mp edge
    exact ⟨u, planned, t, target, rfl, rfl⟩
  · rintro ⟨u, planned, t, target, rfl, rfl⟩
    exact ⟨_, mem_flatMap.mpr ⟨u, planned, mem_map.mpr ⟨t, target, rfl⟩⟩, rfl, rfl⟩

theorem joinsUnits_analyze (d : Disk) : (w.analyze d plan).1.JoinsUnits := by
  intro a b edge
  obtain ⟨u, planned, t, target, rfl, rfl⟩ := current.imports_iff.mp edge
  rw [current.analyze_eq]
  refine And.imp current.lists_listUnits.units.mpr current.lists_listUnits.units.mpr ?_
  exact ⟨mem_map_of_mem planned, mem_map_of_mem (current.closed u planned t target)⟩

theorem transGen_imports (planned : u ∈ plan.reachable) (way : TransGen w.DependsOn u v) :
    v ∈ plan.reachable ∧ TransGen (w.analyze d plan).1.Imports (w.nodeId u) (w.nodeId v) := by
  induction way with
  | single edge =>
    exact ⟨current.closed u planned _ edge, .single (current.imports_iff.mpr ⟨u, planned, _, edge, rfl, rfl⟩)⟩
  | tail _ edge ih =>
    exact ⟨current.closed _ ih.1 _ edge, ih.2.tail (current.imports_iff.mpr ⟨_, ih.1, _, edge, rfl, rfl⟩)⟩

variable (distinct : (plan.reachable.map w.nodeId).Nodup)

include distinct

/-- A way along imports from a node is the way of dependencies from its unit. -/
theorem exists_of_transGen_imports (planned : u ∈ plan.reachable)
    (way : TransGen (w.analyze d plan).1.Imports (w.nodeId u) b) :
    ∃ v ∈ plan.reachable, w.nodeId v = b ∧ TransGen w.DependsOn u v := by
  have single : ∀ {x c}, x ∈ plan.reachable → (w.analyze d plan).1.Imports (w.nodeId x) c →
      ∃ y ∈ plan.reachable, w.nodeId y = c ∧ w.DependsOn x y := by
    intro x c inside edge
    obtain ⟨z, mem, y, target, same, named⟩ := current.imports_iff.mp edge
    rw [inj_on_of_nodup_map distinct mem inside same] at target
    exact ⟨y, current.closed x inside y target, named, target⟩
  induction way with
  | single edge =>
    obtain ⟨v, inside, named, target⟩ := single planned edge
    exact ⟨v, inside, named, .single target⟩
  | tail _ edge ih =>
    obtain ⟨x, inside, rfl, so⟩ := ih
    obtain ⟨v, next, named, target⟩ := single inside edge
    exact ⟨v, next, named, so.tail target⟩

theorem transGen_imports_iff (source : u ∈ plan.reachable) (target : v ∈ plan.reachable) :
    TransGen (w.analyze d plan).1.Imports (w.nodeId u) (w.nodeId v) ↔ TransGen w.DependsOn u v := by
  constructor
  · intro way
    obtain ⟨x, inside, same, so⟩ := current.exists_of_transGen_imports distinct source way
    rwa [inj_on_of_nodup_map distinct inside target same] at so
  · exact fun way => (current.transGen_imports source way).2

theorem exists_transGen_imports_iff : (∃ x, TransGen (w.analyze d plan).1.Imports x x) ↔
    ∃ u ∈ plan.reachable, TransGen w.DependsOn u u := by
  constructor
  · rintro ⟨x, way⟩
    obtain ⟨y, edge, _⟩ := TransGen.head'_iff.mp way
    obtain ⟨u, planned, _, _, rfl, _⟩ := current.imports_iff.mp edge
    exact ⟨u, planned, (current.transGen_imports_iff distinct planned planned).mp way⟩
  · rintro ⟨u, planned, way⟩
    exact ⟨w.nodeId u, (current.transGen_imports planned way).2⟩

end IsCurrent

end Workspace

end ScriptBuild
