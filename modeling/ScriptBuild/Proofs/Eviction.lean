import ScriptBuild.Proofs.Dependencies

/-! Evictions: the units that a project does not describe any more go. -/

namespace ScriptBuild

namespace Workspace

variable {w : Workspace} {d : Disk} {id : UnitId}

structure Traced (w : Workspace) : Prop where
  index : ∀ {id u t}, w.IsRegistered id u → u.isResolved → t ∈ u.dependencies → w.Indexes t id
  owner : ∀ {p path id}, w.lookup p path = some id → p ∈ w.owners

section

variable (w : Workspace) (d : Disk) (id : UnitId)

theorem traced_fresh (projects : List ProjectConfig) (bodies : BodyCache) : (fresh projects bodies).Traced :=
  ⟨(fun registered => nomatch registered.1), fun found => nomatch found⟩

@[simp] theorem owners_startParse : (w.startParse d id).owners = w.owners := by
  obtain ⟨parses, waiting, same⟩ := w.startParse_eq d id
  rw [same]
  rfl

@[simp] theorem dependents_request (p : ProjectId) (path : Text) : (w.request p path).2.dependents = w.dependents := by
  exact w.request_snd_induction p path rfl fun _ _ _ => rfl

end

@[simp] theorem mem_owners_request {p q : ProjectId} {path : Text} :
    q ∈ (w.request p path).2.owners ↔ q ∈ w.owners ∨ q = p := by
  have asked : q ∈ (w.owned p).owners ↔ q ∈ w.owners ∨ q = p := by
    simp only [owned]
    split
    · rename_i known
      rw [List.contains_iff_mem] at known
      exact ⟨.inl, fun mem => mem.elim (fun old => old) fun same => same ▸ known⟩
    · simp
  exact w.request_snd_induction p path asked fun _ _ _ => asked

@[simp] theorem owners_setDependencies (w : Workspace) (id : UnitId) (version : Nat)
    (ds : List UnitId) (xs : List Diagnostic) :
    (w.setDependencies id version ds xs).owners = w.owners := by
  unfold setDependencies
  split
  · rfl
  · split <;> rfl

/-- The index after a record: what is recorded, and what was there and is not taken back. -/
theorem indexes_setDependencies_iff {u : CompilationUnit} (found : w.unit? id = some u) {ds : List UnitId}
    {xs : List Diagnostic} {t j : UnitId} :
    (w.setDependencies id u.version ds xs).Indexes t j ↔
      (j = id ∧ t ∈ ds) ∨ (w.Indexes t j ∧ (j = id → t ∉ u.dependencies)) := by
  simp only [Indexes, setDependencies, found, bne_self_eq_false, Bool.false_eq_true, if_false,
    List.mem_append, List.mem_filter, List.mem_map, List.mem_eraseDups]
  have kept : (!(j == id && u.dependencies.contains t)) = true ↔ (j = id → t ∉ u.dependencies) := by
    simp [imp_iff_not_or]
  constructor
  · rintro (⟨old, stays⟩ | ⟨⟨e, target, same⟩, _⟩)
    · exact .inr ⟨old, kept.mp stays⟩
    · obtain ⟨rfl, rfl⟩ := Prod.mk.inj same
      exact .inl ⟨rfl, target⟩
  · rintro (⟨rfl, target⟩ | ⟨old, stays⟩)
    · by_cases known : (t, j) ∈ w.dependents ∧ t ∉ u.dependencies
      · exact .inl ⟨known.1, kept.mpr fun _ => known.2⟩
      · refine .inr ⟨⟨t, target, rfl⟩, ?_⟩
        simpa [update, imp_iff_not_or] using known
    · exact .inl ⟨old, kept.mpr stays⟩

namespace Traced

variable (traced : w.Traced)

include traced

theorem request (p : ProjectId) (path : Text) : (w.request p path).2.Traced := by
  constructor
  · intro id u t ⟨found, place⟩ current target
    rcases of_unit?_request found with old | ⟨_, _, _, _, new⟩
    · have registered : w.lookup u.project u.path = some id := by
        refine (of_lookup_request place).resolve_right fun ⟨_, _, absent⟩ => ?_
        rw [old] at absent
        cases absent
      rw [Indexes, dependents_request]
      exact traced.index ⟨old, registered⟩ current target
    · subst new
      cases current
  · intro q place id found
    rw [mem_owners_request]
    exact (of_lookup_request found).imp traced.owner fun new => new.1

theorem ages {later : Workspace} (filed : w.Filed) (aged : w.Ages later) (owners : later.owners = w.owners) :
    later.Traced := by
  constructor
  · intro j v t ⟨found, place⟩ current target
    obtain ⟨u, old, same⟩ := aged.of_unit? found
    rw [aged.lookup, same.project, same.path] at place
    rw [Indexes, aged.dependents]
    exact traced.index ⟨old, place⟩ (same.isResolved (filed.recorded old) current) (same.dependencies ▸ target)
  · intro p path j found
    rw [aged.lookup] at found
    rw [owners]
    exact traced.owner found

theorem setDependencies {u : CompilationUnit} (found : w.unit? id = some u) (ds : List UnitId)
    (xs : List Diagnostic) : (w.setDependencies id u.version ds xs).Traced := by
  constructor
  · intro j v t ⟨unit, place⟩ current target
    simp only [lookup, registry_setDependencies] at place
    rcases of_unit?_setDependencies found unit with ⟨here, rfl⟩ | ⟨other, old⟩
    · exact (indexes_setDependencies_iff found).mpr (.inl ⟨here, target⟩)
    · exact (indexes_setDependencies_iff found).mpr
        (.inr ⟨traced.index ⟨old, place⟩ current target, fun same => absurd same other⟩)
  · intro p path j place
    simp only [lookup, registry_setDependencies] at place
    rw [owners_setDependencies]
    exact traced.owner place

end Traced

end Workspace

open List

namespace Workspace

open Relation

variable {w : Workspace} {p : ProjectId} {id : UnitId} {u : CompilationUnit}

theorem project?_configure (w : Workspace) (p : ProjectId) (f : ProjectConfig → ProjectConfig) (q : ProjectId) :
    (w.configure p f).project? q = (w.project? q).map fun c => if p = q then f c else c := by
  rw [project?, configure, getElem?_modify]
  rfl

theorem WellFormed.configure (ok : w.WellFormed) (p : ProjectId) (f : ProjectConfig → ProjectConfig) :
    (w.configure p f).WellFormed := by
  refine ⟨ok.keys, ok.registered, ok.unit, fun found => ?_, ok.targets, ok.indexed⟩
  obtain ⟨c, config⟩ := ok.project found
  rw [project?_configure, config]
  exact ⟨_, rfl⟩

def strays (w : Workspace) (p : ProjectId) : List UnitId :=
  (w.members p).filter fun id => (w.describe p (w.unitPath id)).isNone

def without (w : Workspace) (gone : List UnitId) : Workspace :=
  { w with
    registry := w.registry.filter fun (_, id) => !gone.contains id
    dependents := w.dependents.filter fun (d, u) => !gone.contains d && !gone.contains u }

/-- The units that an eviction leaves, but drops what is known of them. -/
def unsettled (w : Workspace) (p : ProjectId) : List UnitId :=
  (w.closure (w.strays p ++ w.unresolved p)).filter fun id => !(w.strays p).contains id

theorem evict_snd (w : Workspace) (p : ProjectId) :
    (w.evict p).2 = (w.without (w.strays p)).invalidateAll (w.unsettled p) := rfl

theorem nodup_unsettled (w : Workspace) (p : ProjectId) : (w.unsettled p).Nodup :=
  (w.nodup_closure _).filter _

theorem mem_members_iff (filed : w.Filed) : id ∈ w.members p ↔ ∃ u, w.IsRegistered id u ∧ u.project = p := by
  constructor
  · intro mem
    obtain ⟨⟨⟨q, path⟩, _⟩, inside, rfl⟩ := mem_map.mp mem
    obtain ⟨entry, project⟩ := mem_filter.mp inside
    obtain ⟨u, registered, same, _⟩ := filed.isRegistered (lookup_of_mem filed.keys entry)
    exact ⟨u, registered, same.trans (beq_iff_eq.mp project)⟩
  · rintro ⟨u, registered, rfl⟩
    exact mem_map.mpr ⟨_, mem_filter.mpr ⟨mem_of_lookup registered.2, by simp⟩, rfl⟩

theorem mem_strays_iff (filed : w.Filed) :
    id ∈ w.strays p ↔ ∃ u, w.IsRegistered id u ∧ u.project = p ∧ w.describe p u.path = none := by
  have path : ∀ {u}, w.IsRegistered id u → w.unitPath id = u.path := fun registered => by
    rw [unitPath, registered.1]
    rfl
  rw [strays, mem_filter, mem_members_iff filed, Option.isNone_iff_eq_none]
  constructor
  · rintro ⟨⟨u, registered, project⟩, hidden⟩
    exact ⟨u, registered, project, path registered ▸ hidden⟩
  · rintro ⟨u, registered, project, hidden⟩
    exact ⟨⟨u, registered, project⟩, path registered ▸ hidden⟩

theorem lookup_without_iff (keys : (w.registry.map (·.1)).Nodup) {gone : List UnitId} {path : Text} :
    (w.without gone).lookup p path = some id ↔ w.lookup p path = some id ∧ id ∉ gone := by
  have fewer : ((w.without gone).registry.map (·.1)).Nodup :=
    keys.sublist (filter_sublist.map _)
  constructor
  · intro found
    obtain ⟨entry, kept⟩ := mem_filter.mp (mem_of_lookup found)
    exact ⟨lookup_of_mem keys entry, by simpa using kept⟩
  · rintro ⟨found, kept⟩
    exact lookup_of_mem fewer (mem_filter.mpr ⟨mem_of_lookup found, by simpa using kept⟩)

theorem Filed.without (filed : w.Filed) (gone : List UnitId) : (w.without gone).Filed :=
  ⟨filed.keys.sublist (filter_sublist.map _),
    fun found => filed.registered ((lookup_without_iff filed.keys).mp found).1, filed.recorded,
    fun e mem => filed.indexed e (mem_filter.mp mem).1⟩

theorem WellFormed.without (ok : w.WellFormed) (gone : List UnitId) : (w.without gone).WellFormed :=
  have filed := ok.filed.without gone
  ⟨filed.keys, filed.registered, ok.unit, ok.project, ok.targets, filed.indexed⟩

theorem WellFormed.evict (ok : w.WellFormed) (p : ProjectId) : (w.evict p).2.WellFormed :=
  (ok.without (w.strays p)).invalidateAll (w.unsettled p)

theorem describe_evict (w : Workspace) (p q : ProjectId) (path : Text) :
    (w.evict p).2.describe q path = w.describe q path := by
  rw [evict_snd, describe, project?, projects_invalidateAll]
  rfl

theorem unit?_evict_of_not_mem (outside : id ∉ w.closure (w.strays p ++ w.unresolved p)) :
    (w.evict p).2.unit? id = w.unit? id := by
  rw [evict_snd, unit?_invalidateAll_of_not_mem (w.nodup_unsettled p)]
  · rfl
  · exact fun mem => outside (mem_filter.mp mem).1

section Evict

variable (filed : w.Filed)

include filed

theorem not_mem_strays_iff {q : ProjectId} {path : Text} (found : w.lookup q path = some id) :
    id ∉ w.strays p ↔ (q = p → (w.describe p path).isSome) := by
  obtain ⟨u, registered, project, place⟩ := filed.isRegistered found
  rw [mem_strays_iff filed, Option.isSome_iff_ne_none]
  constructor
  · rintro kept rfl hidden
    exact kept ⟨u, registered, project, by rw [place]; exact hidden⟩
  · rintro described ⟨v, same, own, hidden⟩
    have unit : u = v := Option.some.inj (registered.1.symm.trans same.1)
    subst unit
    rw [place] at hidden
    exact described (project.symm.trans own) hidden

theorem lookup_evict_iff {q : ProjectId} {path : Text} :
    (w.evict p).2.lookup q path = some id ↔ w.lookup q path = some id ∧ id ∉ w.strays p := by
  rw [evict_snd, lookup_invalidateAll]
  exact lookup_without_iff filed.keys

/-- What an eviction reaches: the units that depend, directly or not, on a unit that goes or on one with
a name that was not found. -/
theorem mem_closure_strays_iff : id ∈ w.closure (w.strays p ++ w.unresolved p) ↔
    ∃ s, (s ∈ w.strays p ∨ s ∈ w.unresolved p) ∧ ReflTransGen w.Indexes s id := by
  rw [mem_closure_iff filed fun s mem => ?_]
  · simp
  · rcases mem_append.mp mem with stray | pending
    · obtain ⟨v, registered, _⟩ := (mem_strays_iff filed).mp stray
      exact lt_length_of_unit? registered.1
    · exact filed.lt_length_of_mem_unresolved s pending

theorem current_evict_iff (current : u.isResolved) : (w.evict p).2.IsRegistered id u ↔
      w.IsRegistered id u ∧ id ∉ w.closure (w.strays p ++ w.unresolved p) := by
  constructor
  · rintro ⟨found, place⟩
    rw [lookup_evict_iff filed] at place
    obtain ⟨outside, old⟩ := of_isResolved_invalidateAll (filed.without _) (w.nodup_unsettled p) found current
    refine ⟨⟨old, place.1⟩, fun reached => outside (mem_filter.mpr ⟨reached, ?_⟩)⟩
    simpa using place.2
  · rintro ⟨⟨found, place⟩, outside⟩
    have kept : id ∉ w.strays p := fun stray =>
      outside (w.subset_closure id (mem_append_left _ stray))
    exact ⟨(unit?_evict_of_not_mem outside).trans found, (lookup_evict_iff filed).mpr ⟨place, kept⟩⟩

theorem described_evict (others : ∀ q path id, q ≠ p → w.lookup q path = some id → (w.describe q path).isSome) :
    (w.evict p).2.Described := by
  intro q path j found
  obtain ⟨place, kept⟩ := (lookup_evict_iff filed).mp found
  rw [describe_evict]
  by_cases own : q = p
  · subst own
    exact (not_mem_strays_iff filed place).mp kept rfl
  · exact others q path j own place

theorem Traced.evict (traced : w.Traced) (p : ProjectId) : (w.evict p).2.Traced := by
  constructor
  · intro j v t registered current target
    obtain ⟨old, outside⟩ := (current_evict_iff filed current).mp registered
    have edge := traced.index old current target
    -- Whoever depends on a unit that goes is reached.
    have kept : t ∉ w.strays p := fun stray => outside <| (mem_closure_strays_iff filed).mpr
      ⟨t, .inl stray, .single edge⟩
    have own : j ∉ w.strays p := fun stray => outside (w.subset_closure j (mem_append_left _ stray))
    rw [evict_snd, invalidateAll_eq]
    exact mem_filter.mpr ⟨edge, by simp [kept, own]⟩
  · intro q path j found
    rw [evict_snd, invalidateAll_eq]
    exact traced.owner ((lookup_evict_iff filed).mp found).1

end Evict

end Workspace

end ScriptBuild
