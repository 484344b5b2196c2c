import Mathlib.Data.Quot
import Mathlib.Data.Set.Card
import ScriptBuild.Proofs.PlanGraphs

/-! The components of a graph, as a forest of its nodes finds them. -/

namespace ScriptBuild

open List Relation

namespace Forest

variable {f : Forest} {x y r s : Text} {n m : Nat}

theorem parent_insert (f : Forest) (x r y : Text) : (⟨f.parents.insert x r⟩ : Forest).parent y =
    if y = x then (if r = [] then x else r) else f.parent y := by
  rw [parent, Dictionary.find?_insert]
  by_cases same : y = x <;> simp [same, parent]

theorem eq_nil_of_parent_eq_nil (root : f.parent x = []) : x = [] := by
  rw [parent] at root
  split at root
  · exact root
  · rename_i filled
    exact absurd root (by simpa using filled)

/-- A node leads to a root in so many steps. -/
inductive Leads (f : Forest) : Nat → Text → Text → Prop
  | root {x : Text} (root : f.parent x = x) : Leads f 0 x x
  | step {n : Nat} {x r : Text} (other : f.parent x ≠ x) (leads : Leads f n (f.parent x) r) : Leads f (n + 1) x r

theorem Leads.unique (leads : f.Leads n x r) (also : f.Leads m x s) : n = m ∧ r = s := by
  induction leads generalizing m with
  | root root =>
    cases also with
    | root => exact ⟨rfl, rfl⟩
    | step other => exact absurd root other
  | step other _ ih =>
    cases also with
    | root root => exact absurd root other
    | step _ also => exact (ih also).imp_left (congrArg (· + 1))

theorem Leads.parent_eq (leads : f.Leads n x r) : f.parent r = r := by
  induction leads with
  | root root => exact root
  | step _ _ ih => exact ih

theorem Leads.eq_nil (leads : f.Leads n x r) (empty : r = []) : x = [] := by
  induction leads with
  | root => exact empty
  | step _ _ ih => exact eq_nil_of_parent_eq_nil (ih empty)

/-- The nodes on the way to a root are distinct, and they have entries in the forest. -/
theorem Leads.length_le (leads : f.Leads n x r) : n ≤ f.parents.length := by
  have way : ∃ nodes : List Text, nodes.length = n ∧ nodes.Nodup ∧
      ∀ y ∈ nodes, y ∈ f.parents.keys ∧ ∃ m ≤ n, f.Leads m y r := by
    induction leads with
    | root => exact ⟨[], rfl, nodup_nil, by simp⟩
    | @step n x r other leads ih =>
      obtain ⟨nodes, length, nodup, all⟩ := ih
      have key : x ∈ f.parents.keys := by
        by_contra absent
        have missing : f.parents.find? x = none := lookup_eq_none_iff.mpr fun entry mem =>
          bne_iff_ne.mpr fun same => absent (mem_map.mpr ⟨entry, mem, same.symm⟩)
        exact other (by simp [parent, missing])
      refine ⟨x :: nodes, by simp [length], nodup_cons.mpr ⟨fun mem => ?_, nodup⟩, ?_⟩
      · obtain ⟨_, m, fewer, also⟩ := all x mem
        have same := (also.unique (.step other leads)).1
        omega
      · rintro y (_ | ⟨_, mem⟩)
        · exact ⟨key, n + 1, Nat.le_refl _, .step other leads⟩
        · obtain ⟨inside, m, fewer, also⟩ := all y mem
          exact ⟨inside, m, by omega, also⟩
  obtain ⟨nodes, rfl, nodup, all⟩ := way
  simpa [Dictionary.keys] using (nodup.subperm fun y mem => (all y mem).1).length_le

def HasRoot (f : Forest) (x r : Text) : Prop := ∃ n, f.Leads n x r

theorem HasRoot.unique (root : f.HasRoot x r) (also : f.HasRoot x s) : r = s := by
  obtain ⟨n, leads⟩ := root
  obtain ⟨m, other⟩ := also
  exact (leads.unique other).2

theorem HasRoot.self (root : f.HasRoot x r) : f.HasRoot r r := by
  obtain ⟨n, leads⟩ := root
  exact ⟨0, .root leads.parent_eq⟩

theorem HasRoot.congr {g : Forest} (root : f.HasRoot x r) (same : ∀ y, g.parent y = f.parent y) : g.HasRoot x r := by
  obtain ⟨n, leads⟩ := root
  induction leads with
  | root root => exact ⟨0, .root ((same _).trans root)⟩
  | step other _ ih =>
    obtain ⟨m, leads⟩ := ih
    exact ⟨m + 1, .step (same _ ▸ other) (same _ ▸ leads)⟩

/-- A node can be led to a root at once; if it is a root itself, what led to it then leads to the other root. -/
theorem HasRoot.insert (root : f.HasRoot y s) (target : f.HasRoot r r) (apart : x ≠ r) (filled : r ≠ [])
    (whence : f.HasRoot x r ∨ f.HasRoot x x) :
    (⟨f.parents.insert x r⟩ : Forest).HasRoot y (if s = x then r else s) := by
  have parents := parent_insert f x r
  rw [if_neg filled] at parents
  have end_ : (⟨f.parents.insert x r⟩ : Forest).Leads 0 r r := by
    obtain ⟨n, leads⟩ := target
    exact .root (by rw [parents, if_neg (Ne.symm apart), leads.parent_eq])
  have moved : (⟨f.parents.insert x r⟩ : Forest).HasRoot x r :=
    ⟨1, .step (by simpa [parents] using Ne.symm apart) (by simpa [parents] using end_)⟩
  obtain ⟨n, leads⟩ := root
  induction leads with
  | @root y root =>
    split
    · rename_i same
      exact same ▸ moved
    · rename_i other
      exact ⟨0, .root (by rw [parents, if_neg other, root])⟩
  | @step n y s other leads ih =>
    by_cases same : y = x
    · subst same
      have back : (if s = y then r else s) = r := by
        have whole : f.HasRoot y s := ⟨_, .step other leads⟩
        rcases whence with root | root
        · rw [whole.unique root, if_neg (Ne.symm apart)]
        · rw [whole.unique root, if_pos rfl]
      rw [back]
      exact moved
    · obtain ⟨m, later⟩ := ih
      have kept : (⟨f.parents.insert x r⟩ : Forest).parent y = f.parent y := by rw [parents, if_neg same]
      exact ⟨m + 1, .step (kept ▸ other) (kept ▸ later)⟩

/-- A search finds the root of a node, however many steps more it may take, and all nodes keep their roots. -/
theorem find_spec {fuel : Nat} (leads : f.Leads n x r) (enough : n ≤ fuel) :
    (f.find fuel x).1 = r ∧ ∀ y s, f.HasRoot y s → (f.find fuel x).2.HasRoot y s := by
  induction fuel generalizing n x with
  | zero =>
    obtain rfl : n = 0 := by omega
    cases leads
    exact ⟨rfl, fun _ _ => id⟩
  | succ fuel ih =>
    rw [find]
    cases leads with
    | root root => simp [root]
    | @step n _ _ other leads =>
      obtain ⟨found, keeps⟩ := ih leads (by omega)
      have apart : x ≠ r := fun same => other (same ▸ leads.parent_eq)
      have filled : r ≠ [] := fun empty => apart (((Leads.step other leads).eq_nil empty).trans empty.symm)
      rw [if_neg (by simpa using other)]
      refine ⟨found, fun y s root => ?_⟩
      have here : f.HasRoot x r := ⟨_, .step other leads⟩
      have inner : s ≠ x := by
        rintro rfl
        obtain ⟨_, last⟩ := root
        exact other last.parent_eq
      have moved := (keeps y s root).insert (keeps r r here.self) apart filled (.inl (keeps x r here))
      rw [if_neg inner, ← found] at moved
      exact moved

theorem root_spec (root : f.HasRoot x r) :
    (f.root x).1 = r ∧ ∀ y s, f.HasRoot y s → (f.root x).2.HasRoot y s := by
  obtain ⟨n, leads⟩ := root
  exact find_spec leads leads.length_le

/-- The roots after two nodes with roots `r` and `s` are united. A union with the empty name as root is lost. -/
theorem HasRoot.unite {a b : Text} (left : f.HasRoot a r) (right : f.HasRoot b s) {t : Text} (root : f.HasRoot y t) :
    (f.unite a b).HasRoot y (if t = r ∧ s ≠ [] then s else t) := by
  obtain ⟨first, keeps⟩ := root_spec left
  obtain ⟨second, also⟩ := root_spec (keeps b s right)
  rw [Forest.unite]
  dsimp only
  rw [first, second]
  split
  · rename_i same
    obtain rfl := beq_iff_eq.mp same
    have stays : (if t = r ∧ r ≠ [] then r else t) = t := by
      split
      · rename_i here
        exact here.1.symm
      · rfl
    rw [stays]
    exact also y t (keeps y t root)
  · rename_i other
    have kept := also y t (keeps y t root)
    have from_ := also r r (keeps r r left.self)
    by_cases empty : s = []
    · rw [if_neg (by simp [empty]), empty]
      obtain ⟨_, top⟩ := from_
      refine kept.congr fun x => ?_
      rw [parent_insert, if_pos rfl]
      split
      · rename_i same
        rw [same, top.parent_eq]
      · rfl
    · simp only [ne_eq, empty, not_false_eq_true, and_true]
      exact kept.insert (also s s (keeps s s right.self)) (by simpa using other) empty (.inr from_)

/-- What a forest says of edges: every node leads to a root to which edges join it, and edges join nodes of one root,
apart from those that lead to the empty name. -/
structure Spans (f : Forest) (edges : Text → Text → Prop) : Prop where
  total : ∀ x, ∃ r, f.HasRoot x r
  joined : ∀ {x r}, f.HasRoot x r → EqvGen edges x r
  same : ∀ {a b}, edges a b → (b = [] → a = []) → ∃ r, f.HasRoot a r ∧ f.HasRoot b r

theorem spans_empty : ({} : Forest).Spans fun _ _ => False := by
  have root : ∀ x, ({} : Forest).HasRoot x x := fun x => ⟨0, .root rfl⟩
  exact ⟨fun x => ⟨x, root x⟩, fun {x r} has => (root x).unique has ▸ .refl x, fun edge => edge.elim⟩

theorem Spans.unite {edges : Text → Text → Prop} (spans : f.Spans edges) (a b : Text) :
    (f.unite a b).Spans fun x y => edges x y ∨ x = a ∧ y = b := by
  obtain ⟨r, left⟩ := spans.total a
  obtain ⟨s, right⟩ := spans.total b
  have more : ∀ {x y}, EqvGen edges x y → EqvGen (fun x y => edges x y ∨ x = a ∧ y = b) x y :=
    fun joined => EqvGen.mono (fun _ _ => Or.inl) _ _ joined
  refine ⟨fun x => ?_, fun {x t} root => ?_, fun {x y} edge plain => ?_⟩
  · obtain ⟨t, root⟩ := spans.total x
    exact ⟨_, left.unite right root⟩
  · obtain ⟨old, before⟩ := spans.total x
    rw [root.unique (left.unite right before)]
    split
    · rename_i moved
      obtain ⟨rfl, _⟩ := moved
      have link : EqvGen (fun x y => edges x y ∨ x = a ∧ y = b) a b := .rel _ _ (.inr ⟨rfl, rfl⟩)
      have up := (more (spans.joined left)).symm
      exact .trans _ _ _ (more (spans.joined before)) (.trans _ _ _ up (.trans _ _ _ link (more (spans.joined right))))
    · exact more (spans.joined before)
  · rcases edge with edge | ⟨rfl, rfl⟩
    · obtain ⟨t, source, target⟩ := spans.same edge plain
      exact ⟨_, left.unite right source, left.unite right target⟩
    · have target := left.unite right right
      have source := left.unite right left
      by_cases empty : s = []
      · obtain ⟨_, leads⟩ := right
        obtain rfl := leads.eq_nil empty
        obtain rfl := plain rfl
        exact ⟨_, source, source⟩
      · rw [if_pos ⟨rfl, empty⟩] at source
        refine ⟨s, source, ?_⟩
        have stays : (if s = r ∧ s ≠ [] then s else s) = s := ite_self s
        exact stays ▸ target

theorem Spans.root_eq_iff {edges : Text → Text → Prop} (spans : f.Spans edges) (plain : ∀ a b, edges a b → b = [] → a = [])
    (left : f.HasRoot x r) (right : f.HasRoot y s) : r = s ↔ EqvGen edges x y := by
  constructor
  · rintro rfl
    exact .trans _ _ _ (spans.joined left) (spans.joined right).symm
  · intro joined
    induction joined generalizing r s with
    | rel a b edge =>
      obtain ⟨t, source, target⟩ := spans.same edge (plain a b edge)
      exact (left.unique source).trans (target.unique right)
    | refl => exact left.unique right
    | symm _ _ _ ih => exact (ih right left).symm
    | trans _ middle _ _ _ first second =>
      obtain ⟨t, root⟩ := spans.total middle
      exact (first left root).trans (second root right)

/-- The roots that are counted are those of the nodes, each once. -/
theorem roots_spec (total : ∀ x, ∃ r, f.HasRoot x r) (nodes known : List Text) (nodup : known.Nodup) :
    (f.roots known nodes).Nodup ∧ ∀ r, r ∈ f.roots known nodes ↔ r ∈ known ∨ ∃ x ∈ nodes, f.HasRoot x r := by
  induction nodes generalizing f known with
  | nil => exact ⟨nodup, by simp [roots]⟩
  | cons x nodes ih =>
    obtain ⟨r, root⟩ := total x
    obtain ⟨found, keeps⟩ := root_spec root
    have same : ∀ {y s}, (f.root x).2.HasRoot y s ↔ f.HasRoot y s := fun {y s} => by
      refine ⟨fun has => ?_, keeps y s⟩
      obtain ⟨t, before⟩ := total y
      exact has.unique (keeps y t before) ▸ before
    rw [roots]
    dsimp only
    rw [found]
    have unique : (if known.contains r then known else r :: known).Nodup := by
      split
      · exact nodup
      · rename_i new
        exact nodup_cons.mpr ⟨by simpa using new, nodup⟩
    obtain ⟨once, members⟩ := ih (fun y => (total y).imp fun s => same.mpr) _ unique
    refine ⟨once, fun s => ?_⟩
    simp only [members, same, mem_cons, exists_eq_or_imp]
    have here : f.HasRoot x s ↔ s = r := ⟨fun has => has.unique root, fun eq => eq ▸ root⟩
    rw [here]
    by_cases old : r ∈ known <;> simp [old] <;> grind

end Forest

namespace UnitGraph

variable {g : UnitGraph}

theorem spans_forest (g : UnitGraph) : g.forest.Spans g.Imports := by
  have all : ∀ (es : List GraphEdge) {f : Forest} {edges : Text → Text → Prop}, f.Spans edges →
      (es.foldl (fun f e => f.unite e.source e.target) f).Spans
        fun a b => edges a b ∨ ∃ e ∈ es, e.source = a ∧ e.target = b := by
    intro es
    induction es with
    | nil => intro f edges spans; simpa using spans
    | cons e es ih =>
      intro f edges spans
      have later := ih (spans.unite e.source e.target)
      simp only [or_assoc, foldl_cons, mem_cons, exists_eq_or_imp] at later ⊢
      simpa only [eq_comm (a := e.source), eq_comm (a := e.target)] using later
  have whole := all g.imports Forest.spans_empty
  simp only [false_or] at whole
  exact whole

/-- Nodes have names, and imports lead to nodes. -/
structure Named (g : UnitGraph) : Prop where
  filled : ∀ n ∈ g.nodes, n.id ≠ []
  joined : ∀ e ∈ g.imports, g.hasNode e.target

theorem Named.target_ne_nil (named : g.Named) {e : GraphEdge} (mem : e ∈ g.imports) :
    e.target ≠ [] := by
  obtain ⟨n, node, same⟩ := mem_map.mp (hasNode_iff.mp (named.joined e mem))
  exact same ▸ named.filled n node

theorem Named.addNode (named : g.Named) {n : GraphNode} (filled : n.id ≠ []) :
    Named { g with nodes := g.nodes ++ [n] } where
  filled := by simpa [or_imp, forall_and] using ⟨named.filled, filled⟩
  joined e mem := hasNode_iff.mpr (by simpa using .inl (mem_map.mp (hasNode_iff.mp (named.joined e mem))))

theorem Named.addEdges (named : g.Named) {es : List GraphEdge}
    (joined : ∀ e ∈ es, e.kind = .imports → g.hasNode e.target) :
    Named { g with edges := g.edges ++ es } where
  filled := named.filled
  joined e mem := by
    obtain ⟨edge, kind⟩ := mem_filter.mp mem
    rcases mem_append.mp edge with old | new
    · exact named.joined e (mem_filter.mpr ⟨old, kind⟩)
    · exact joined e new (by simpa using kind)

theorem Named.addUnit (named : g.Named) (u : CompilationUnit) (isEmitted : Bool) :
    (g.addUnit u isEmitted).Named := by
  have unit : u.nodeId ≠ [] := by
    unfold CompilationUnit.nodeId
    split <;> exact append_ne_nil_of_left_ne_nil (by decide) _
  have package : ("pkg:" : Text) ++ u.packageName ≠ [] := append_ne_nil_of_left_ne_nil (by decide) _
  unfold UnitGraph.addUnit
  dsimp only
  split <;> split
  · exact named
  · exact (named.addNode unit).addEdges (by simp)
  · exact named.addNode package
  · exact ((named.addNode package).addNode unit).addEdges (by simp)

theorem named_analyze (w : Workspace) (d : Disk) (plan : BuildPlan) : (w.analyze d plan).1.Named := by
  have listed : (w.listUnits plan).Named := by
    refine foldlRecOn plan.reachable _ ⟨by simp, by simp [imports]⟩ fun g named id _ => ?_
    unfold Workspace.listUnit
    split
    · exact named
    · exact named.addUnit _ _
  have whole : (plan.reachable.foldl (Workspace.addImports d) (w.listUnits plan, w)).1.Named := by
    refine foldlRecOn (motive := fun s : UnitGraph × Workspace => s.1.Named) plan.reachable _ listed fun s named id _ => ?_
    refine named.addEdges fun e mem _ => ?_
    obtain ⟨target, kept, rfl⟩ := mem_map.mp mem
    exact (mem_filter.mp kept).2
  refine whole.addEdges fun e mem kind => ?_
  obtain ⟨pair, _, rfl⟩ := mem_map.mp mem
  cases kind

theorem componentCount_of_plain (plain : ∀ e ∈ g.imports, e.target = [] → e.source = []) :
    g.componentCount = Set.ncard {c | ∃ n ∈ g.units, Quot.mk g.Imports n.id = c} := by
  have spans := g.spans_forest
  obtain ⟨once, members⟩ := Forest.roots_spec spans.total (g.units.map (·.id)) [] nodup_nil
  have edges : ∀ a b, g.Imports a b → b = [] → a = [] := by
    rintro a b ⟨e, mem, rfl, rfl⟩
    exact plain e mem
  have classes : {c | ∃ n ∈ g.units, Quot.mk g.Imports n.id = c} =
      Quot.mk g.Imports '' {r | r ∈ g.forest.roots [] (g.units.map (·.id))} := by
    ext c
    simp only [Set.mem_ofPred_eq, Set.mem_image, members, not_mem_nil, false_or, mem_map,
      exists_exists_and_eq_and]
    constructor
    · rintro ⟨n, mem, rfl⟩
      obtain ⟨r, root⟩ := spans.total n.id
      exact ⟨r, ⟨n, mem, root⟩, (Quot.eqvGen_sound (spans.joined root)).symm⟩
    · rintro ⟨r, ⟨n, mem, root⟩, rfl⟩
      exact ⟨n, mem, Quot.eqvGen_sound (spans.joined root)⟩
  rw [classes, Set.InjOn.ncard_image, ← coe_toFinset, Set.ncard_coe_finset,
    toFinset_card_of_nodup once, componentCount]
  intro r left s right same
  simp only [Set.mem_ofPred_eq, members, not_mem_nil, false_or] at left right
  obtain ⟨_, _, left⟩ := left
  obtain ⟨_, _, right⟩ := right
  exact (spans.root_eq_iff edges left.self right.self).mpr (Quot.eqvGen_exact same)

/-- A node leads to a root on every graph, which a search with more steps finds as well. The
components are the classes of units that imports join, if none of these leads to the empty name from
another, and so on the graph of every plan. -/
theorem componentCount_eq_ncard (g : UnitGraph) :
    (∀ x, ∃ r, g.forest.HasRoot x r ∧
      ∀ fuel ≥ g.forest.parents.length, (g.forest.find fuel x).1 = r) ∧
    ((∀ e ∈ g.imports, e.target = [] → e.source = []) ∨
        (∃ (w : Workspace) (d : Disk) (plan : BuildPlan), (w.analyze d plan).1 = g) →
      g.componentCount = Set.ncard {c | ∃ n ∈ g.units, Quot.mk g.Imports n.id = c}) := by
  refine ⟨fun x => ?_, fun made => componentCount_of_plain ?_⟩
  · obtain ⟨r, n, leads⟩ := g.spans_forest.total x
    refine ⟨r, ⟨n, leads⟩, fun fuel enough => ?_⟩
    exact (Forest.find_spec leads (leads.length_le.trans enough)).1
  · rcases made with plain | ⟨w, d, plan, rfl⟩
    · exact plain
    · exact fun e mem empty => absurd empty ((named_analyze w d plan).target_ne_nil mem)

/-- The graph of source units without packages. -/
def ofImports (ids : List Text) (imports : List (Text × Text)) : UnitGraph :=
  { nodes := ids.map fun id => { id, name := id, kind := .source, package := [] }
    edges := imports.map fun (source, target) => { source, target, kind := .imports } }

/-- Three units, one of which imports another. -/
def threeUnits : UnitGraph := ofImports ["a", "b", "c"] [("c", "a")]

theorem componentCount_threeUnits :
    Set.ncard {c | ∃ n ∈ threeUnits.units, Quot.mk threeUnits.Imports n.id = c} = 2 :=
  ((componentCount_eq_ncard threeUnits).2 (.inl (by decide))).symm

/-- A unit that imports one with the empty name. -/
def unnamedImport : UnitGraph := ofImports ["a", ""] [("a", "")]

/-- The empty name stands for no parent, so an import that leads to it joins nothing. -/
theorem componentCount_unnamedImport : unnamedImport.componentCount = 2 ∧
    ∀ m ∈ unnamedImport.units, ∀ n ∈ unnamedImport.units,
      EqvGen unnamedImport.Imports m.id n.id := by
  have joined : EqvGen unnamedImport.Imports "a" "" := .rel _ _ ⟨_, mem_singleton_self _, rfl, rfl⟩
  refine ⟨by decide, fun m left n right => ?_⟩
  simp [units, unnamedImport, ofImports] at left right
  rcases left with rfl | rfl <;> rcases right with rfl | rfl
  · exact .refl _
  · exact joined
  · exact joined.symm
  · exact .refl _

end UnitGraph

end ScriptBuild
