import ScriptBuild.Proofs.CorpusRecords

/-! The order of declarations in a corpus. -/

namespace ScriptBuild

open List ExternRecord

variable {owner name : Text} {isStatic : Bool} {m : ExternModel} {e : Entry}

/-- Three groups of entries, by what kind each of them is for. -/
structure Entry.Grouped (group : Entry → EntryKind) (x y z : EntryKind) (as bs cs : List Entry) : Prop where
  first : ∀ e ∈ as, group e = x
  second : ∀ e ∈ bs, group e = y
  third : ∀ e ∈ cs, group e = z

namespace Entry.Grouped

variable {group : Entry → EntryKind} {x y z : EntryKind} {as bs cs as' bs' cs' : List Entry}

theorem nil : Grouped group x y z [] [] [] := ⟨forall_mem_nil _, forall_mem_nil _, forall_mem_nil _⟩

section

variable (grouped : Grouped group x y z as bs cs)

include grouped

theorem addFirst (kind : group e = x) : Grouped group x y z (as ++ [e]) bs cs :=
  ⟨forall_mem_append.mpr ⟨grouped.first, by simpa using kind⟩, grouped.second, grouped.third⟩

theorem addSecond (kind : group e = y) : Grouped group x y z as (bs ++ [e]) cs :=
  ⟨grouped.first, forall_mem_append.mpr ⟨grouped.second, by simpa using kind⟩, grouped.third⟩

theorem addThird (kind : group e = z) : Grouped group x y z as bs (cs ++ [e]) :=
  ⟨grouped.first, grouped.second, forall_mem_append.mpr ⟨grouped.third, by simpa using kind⟩⟩

/-- Groups of different kinds can be told from all the entries together. -/
theorem eq_filter (different : [x, y, z].Nodup) :
    as = (as ++ bs ++ cs).filter (group · == x) ∧ bs = (as ++ bs ++ cs).filter (group · == y) ∧
      cs = (as ++ bs ++ cs).filter (group · == z) := by
  have all : ∀ {es : List Entry} {k : EntryKind}, (∀ e ∈ es, group e = k) → es.filter (group · == k) = es :=
    fun same => filter_eq_self.mpr fun e mem => by simp [same e mem]
  have none : ∀ {es : List Entry} {k l : EntryKind}, (∀ e ∈ es, group e = k) → k ≠ l → es.filter (group · == l) = [] :=
    fun same differ => filter_eq_nil_iff.mpr fun e mem => by simp [same e mem, differ]
  have xy : x ≠ y := by grind
  have xz : x ≠ z := by grind
  have yz : y ≠ z := by grind
  simp only [filter_append]
  refine ⟨?_, ?_, ?_⟩
  · rw [all grouped.first, none grouped.second xy.symm, none grouped.third xz.symm, append_nil, append_nil]
  · rw [none grouped.first xy, all grouped.second, none grouped.third yz.symm, append_nil, nil_append]
  · rw [none grouped.first xz, none grouped.second yz, all grouped.third, append_nil, nil_append]

end

theorem perm (left : Grouped group x y z as bs cs) (right : Grouped group x y z as' bs' cs')
    (different : [x, y, z].Nodup) (together : (as ++ bs ++ cs).Perm (as' ++ bs' ++ cs')) :
    as.Perm as' ∧ bs.Perm bs' ∧ cs.Perm cs' := by
  obtain ⟨first, second, third⟩ := left.eq_filter different
  obtain ⟨first', second', third'⟩ := right.eq_filter different
  refine ⟨?_, ?_, ?_⟩
  · exact first.symm ▸ first'.symm ▸ together.filter _
  · exact second.symm ▸ second'.symm ▸ together.filter _
  · exact third.symm ▸ third'.symm ▸ together.filter _

end Entry.Grouped

namespace ExternClass

variable {c : ExternClass}

/-- The group of a member: constants and methods have one of their own. -/
def group (e : Entry) : EntryKind :=
  match e.kind with
  | .method => .method
  | .constant => .constant
  | _ => .field

def IsGrouped (c : ExternClass) : Prop :=
  Entry.Grouped group .constant .field .method c.constants c.fields c.functions

theorem IsGrouped.add (grouped : c.IsGrouped) (e : Entry) : (c.add e).IsGrouped := by
  unfold ExternClass.add
  split <;> rename_i kind
  · exact Entry.Grouped.addThird grouped (by simp [group, kind])
  · exact Entry.Grouped.addFirst grouped (by simp [group, kind])
  · exact Entry.Grouped.addSecond grouped (by unfold group; split <;> simp_all)

/-- Classes that differ at most in the order of their members. -/
structure Matches (c d : ExternClass) : Prop where
  entry : c.entry = d.entry
  superTypes : c.superTypes = d.superTypes
  interfaces : c.interfaces = d.interfaces
  constants : c.constants.Perm d.constants
  fields : c.fields.Perm d.fields
  functions : c.functions.Perm d.functions

end ExternClass

namespace ExternModel

/-- The group of an entry at top level: type definitions and functions have one of their own. -/
def group (e : Entry) : EntryKind :=
  match e.kind with
  | .typedef => .typedef
  | .function => .function
  | _ => .constant

structure IsGrouped (m : ExternModel) : Prop where
  top : Entry.Grouped group .typedef .function .constant m.typedefs m.functions m.constants
  classes : ∀ c ∈ m.classes, c.IsGrouped

theorem IsGrouped.addTopLevel (grouped : m.IsGrouped) (e : Entry) : (m.addTopLevel e).IsGrouped := by
  refine ⟨?_, classes_addTopLevel m e ▸ grouped.classes⟩
  unfold ExternModel.addTopLevel
  split <;> rename_i kind
  · exact grouped.top.addFirst (by simp [group, kind])
  · exact grouped.top.addSecond (by simp [group, kind])
  · exact grouped.top.addThird (by unfold group; split <;> simp_all)

theorem IsGrouped.addRecord (grouped : m.IsGrouped) (r : ExternRecord) : (m.addRecord r).1.IsGrouped := by
  cases r with
  | type entry superTypes interfaces =>
    unfold ExternModel.addRecord addClass
    dsimp only
    split
    · exact grouped
    · exact ⟨grouped.top, forall_mem_append.mpr ⟨grouped.classes, forall_mem_singleton.mpr Entry.Grouped.nil⟩⟩
  | entry e =>
    unfold ExternModel.addRecord addEntry
    dsimp only
    split
    · split
      · exact grouped
      · exact grouped.addTopLevel e
    · split
      · exact grouped
      · split
        · exact grouped
        · refine ⟨grouped.top, fun d mem => ?_⟩
          obtain ⟨c, held, rfl⟩ := mem_map.mp mem
          split
          · exact (grouped.classes c held).add e
          · exact grouped.classes c held

theorem isGrouped_ofDecls (decls : List ExternDecl) : (ofDecls decls).1.IsGrouped := by
  rw [ofDecls_eq_foldl]
  refine foldlRecOn (ExternDecl.passes decls) recordStep
    (motive := fun s : ExternModel × List Diagnostic => s.1.IsGrouped) ⟨.nil, forall_mem_nil _⟩ ?_
  exact fun s grouped r _ => grouped.addRecord r

end ExternModel

namespace ExternDecl

variable {decls others : List ExternDecl}

/-- How the owner of an entry is settled does not depend on the order of the declarations, and so not what there is
to record. -/
theorem perm_passes_of_perm (order : decls.Perm others) : (passes decls).Perm (passes others) := by
  have settled : record? decls = record? others := by
    funext d
    cases d with
    | «namespace» | type => rfl
    | entry isDotted e =>
      have types : (typeNames decls).contains e.owner = (typeNames others).contains e.owner :=
        (order.filterMap _).contains_eq
      have namespaces : (ExternModel.namespacesOf decls).contains e.owner =
          (ExternModel.namespacesOf others).contains e.owner := (order.filterMap _).contains_eq
      simp only [record?, settledIn, types, namespaces]
  refine (perm_passes decls).trans (Perm.trans ?_ (perm_passes others).symm)
  unfold records
  rw [settled]
  exact order.filterMap _

end ExternDecl

namespace ExternRecord

variable {rs others : List ExternRecord} {r : ExternRecord}

/-- Whether a record is a member of a type that is not among the records. -/
def isOrphan (rs : List ExternRecord) (r : ExternRecord) : Bool :=
  match r.key with
  | .member owner _ _ => !rs.any fun x => x.key == .type owner
  | .type _ | .top _ => false

theorem isOrphan_iff : isOrphan rs r ↔
    ∃ owner name isStatic, r.key = .member owner name isStatic ∧ ∀ x ∈ rs, x.key ≠ .type owner := by
  unfold isOrphan
  cases r.key <;> simp

theorem isOrphan_of_perm (order : rs.Perm others) : isOrphan rs = isOrphan others := by
  funext r
  rw [Bool.eq_iff_iff, isOrphan_iff, isOrphan_iff]
  simp only [order.mem_iff]

end ExternRecord

namespace ExternModel

namespace Keeps

variable {rs others : List ExternRecord} {s t : ExternModel × List Diagnostic} {r : ExternRecord}

section

variable (keeps : Keeps rs s)

include keeps

theorem isOrphan_of_key_mem (taken : r.key ∈ s.1.keys) : isOrphan rs r = false := by
  by_contra orphan
  obtain ⟨owner, name, isStatic, key, absent⟩ := isOrphan_iff.mp (by simpa using orphan)
  rw [key] at taken
  obtain ⟨c, held, inside⟩ := mem_flatMap.mp (keeps.filed.mem_keys_member.mp taken)
  obtain ⟨e, _, ⟨⟩⟩ := mem_map.mp inside
  obtain ⟨x, mem, same⟩ := keeps.mem_keys_type_iff.mp (mem_keys_type.mpr ⟨c, held, rfl⟩)
  exact absent x mem same

theorem isOrphan_of_absent (key : r.key = .member owner name isStatic) (absent : .type owner ∉ s.1.keys) :
    isOrphan rs r :=
  isOrphan_iff.mpr
    ⟨owner, name, isStatic, key, fun x mem same => absent (keeps.mem_keys_type_iff.mpr ⟨x, mem, same⟩)⟩

/-- What a warning is about tells whether the owner is missing. -/
theorem kind_of_reports {w : Diagnostic} (reason : s.1.Reports r w) :
    (w.kind == .unresolved) = isOrphan rs r ∧ (w.kind == .duplicate) = !isOrphan rs r := by
  cases reason with
  | ownerless key absent =>
    rw [keeps.isOrphan_of_absent key absent]
    exact ⟨rfl, rfl⟩
  | @duplicate first recorded blocks =>
    have owned : isOrphan rs r = false := by
      rcases blocks.eq_or with same | ⟨_, _, top⟩
      · exact keeps.isOrphan_of_key_mem (same ▸ mem_keys_of_mem recorded)
      · simp [isOrphan, top]
    rw [owned]
    exact ⟨rfl, rfl⟩

theorem mem_keys_iff {k : RecordKey} : k ∈ s.1.keys ↔ (∃ x ∈ rs, x.key = k ∧ isOrphan rs x = false) ∧
      ∀ name, k = .top name → ∀ x ∈ rs, x.key ≠ .type name := by
  constructor
  · intro taken
    obtain ⟨x, recorded, rfl⟩ := mem_map.mp taken
    refine ⟨⟨x, keeps.subset recorded, rfl, keeps.isOrphan_of_key_mem taken⟩, ?_⟩
    intro name top y mem type
    exact keeps.apart name (keeps.mem_keys_type_iff.mpr ⟨y, mem, type⟩) (top ▸ taken)
  · rintro ⟨⟨x, mem, rfl, owned⟩, free⟩
    rcases keeps.recorded_or_reported mem with recorded | ⟨w, reason⟩
    · exact mem_keys_of_mem recorded
    · cases reason with
      | ownerless key absent =>
        rw [keeps.isOrphan_of_absent key absent] at owned
        cases owned
      | @duplicate first recorded blocks =>
        rcases blocks.eq_or with same | ⟨name, type, top⟩
        · exact same ▸ mem_keys_of_mem recorded
        · exact absurd type (free name top first (keeps.subset recorded))

theorem countP_unresolved : s.2.countP (fun w => w.kind == .unresolved) = rs.countP (isOrphan rs) := by
  obtain ⟨reports, warnings, all, reasons⟩ := keeps.parts
  have recorded : s.1.records.countP (isOrphan rs) = 0 :=
    countP_eq_zero.mpr fun r inside => by simp [keeps.isOrphan_of_key_mem (mem_keys_of_mem inside)]
  rw [← all.countP_eq, countP_append, recorded, Nat.zero_add, warnings, countP_map, countP_map]
  exact countP_congr fun p mem => by simp [(keeps.kind_of_reports (reasons p mem)).1]

/-- All others are recorded or reported as duplicates. -/
theorem length_add_countP_duplicate : s.1.keys.length + s.2.countP (fun w => w.kind == .duplicate) =
    rs.countP fun r => !isOrphan rs r := by
  obtain ⟨reports, warnings, all, reasons⟩ := keeps.parts
  have recorded : s.1.records.countP (fun r => !isOrphan rs r) = s.1.records.length :=
    countP_eq_length.mpr fun r inside => by simp [keeps.isOrphan_of_key_mem (mem_keys_of_mem inside)]
  rw [← all.countP_eq, countP_append, recorded, warnings, countP_map, countP_map, keys, length_map]
  congr 1
  exact countP_congr fun p mem => by simp [(keeps.kind_of_reports (reasons p mem)).2]

theorem perm_records (unique : s.2.countP (fun w => w.kind == .duplicate) = 0) :
    s.1.records.Perm (rs.filter fun r => !isOrphan rs r) := by
  obtain ⟨reports, warnings, all, reasons⟩ := keeps.parts
  have recorded : s.1.records.filter (fun r => !isOrphan rs r) = s.1.records :=
    filter_eq_self.mpr fun r inside => by simp [keeps.isOrphan_of_key_mem (mem_keys_of_mem inside)]
  have reported : (reports.map (·.1)).filter (fun r => !isOrphan rs r) = [] := by
    rw [warnings, countP_map, countP_eq_zero] at unique
    rw [filter_eq_nil_iff]
    intro r mem
    obtain ⟨p, inside, rfl⟩ := mem_map.mp mem
    rw [← (keeps.kind_of_reports (reasons p inside)).2]
    exact unique p inside
  have kept := all.filter fun r => !isOrphan rs r
  rwa [filter_append, recorded, reported, append_nil] at kept

end

theorem perm_keys (left : Keeps rs s) (right : Keeps others t) (order : rs.Perm others) : s.1.keys.Perm t.1.keys := by
  rw [perm_ext_iff_of_nodup left.filed.nodup right.filed.nodup]
  intro k
  rw [left.mem_keys_iff, right.mem_keys_iff, isOrphan_of_perm order]
  simp only [order.mem_iff]

end Keeps

structure SameKeys (m n : ExternModel) : Prop where
  classes : (m.classes.map ExternClass.name).Perm (n.classes.map ExternClass.name)
  top : (m.topLevel.map Entry.name).Perm (n.topLevel.map Entry.name)
  members : m.memberKeys.Perm n.memberKeys

/-- Models that differ at most in the order of what they hold. -/
structure SameEntries (m n : ExternModel) : Prop where
  typedefs : m.typedefs.Perm n.typedefs
  functions : m.functions.Perm n.functions
  constants : m.constants.Perm n.constants
  classes : ∀ c ∈ m.classes, ∀ d ∈ n.classes, c.name = d.name → c.Matches d

namespace Keeps

variable {rs others : List ExternRecord} {s t : ExternModel × List Diagnostic}

theorem sameKeys (left : Keeps rs s) (right : Keeps others t) (order : rs.Perm others) : SameKeys s.1 t.1 := by
  have keys : ∀ k, k ∈ s.1.keys ↔ k ∈ t.1.keys := fun k => (left.perm_keys right order).mem_iff
  obtain ⟨types, top, members⟩ := left.filed.nodup_parts
  obtain ⟨types', top', members'⟩ := right.filed.nodup_parts
  refine ⟨?_, ?_, ?_⟩
  · rw [perm_ext_iff_of_nodup types types']
    intro name
    rw [mem_map, mem_map, ← mem_keys_type, ← mem_keys_type, keys]
  · rw [perm_ext_iff_of_nodup top top']
    intro name
    rw [mem_map, mem_map, ← left.filed.mem_keys_top, ← right.filed.mem_keys_top, keys]
  · rw [perm_ext_iff_of_nodup members members']
    rintro ⟨owner, name, isStatic⟩
    rw [← left.filed.mem_keys_member, ← right.filed.mem_keys_member, keys]

theorem sameEntries (left : Keeps rs s) (right : Keeps others t) (leftGroups : s.1.IsGrouped)
    (rightGroups : t.1.IsGrouped) (same : s.1.records.Perm t.1.records) : SameEntries s.1 t.1 := by
  have top : s.1.topLevel.Perm t.1.topLevel := by
    rw [perm_ext_iff_of_nodup left.filed.nodup_parts.2.1.of_map right.filed.nodup_parts.2.1.of_map]
    intro e
    rw [left.filed.mem_topLevel_iff, right.filed.mem_topLevel_iff, same.mem_iff]
  obtain ⟨typedefs, functions, constants⟩ := leftGroups.top.perm rightGroups.top (by decide) top
  refine ⟨typedefs, functions, constants, fun c here d there named => ?_⟩
  have members : c.members.Perm d.members := by
    rw [perm_ext_iff_of_nodup (.of_map _ (left.filed.nodup_memberKeys here))
      (.of_map _ (right.filed.nodup_memberKeys there))]
    intro e
    rw [left.filed.mem_members_iff here, right.filed.mem_members_iff there, same.mem_iff, named]
  obtain ⟨constants, fields, functions⟩ :=
    Entry.Grouped.perm (leftGroups.classes c here) (rightGroups.classes d there) (by decide) members
  have type : ofClass c = ofClass d := by
    have recorded := same.mem_iff.mp (mem_records.mpr (.inl ⟨c, here, rfl⟩))
    rcases mem_records.mp recorded with ⟨x, held, same⟩ | ⟨_, _, ⟨⟩⟩
    have name : x.name = d.name := (congrArg (fun r => r.declared.name) same).trans named
    rw [← same, right.filed.eq_of_name held there name]
  injection type with entry superTypes interfaces
  exact ⟨entry, superTypes, interfaces, constants, fields, functions⟩

end Keeps

/-- The order of declarations does not show in the names and members of a model, nor in what is reported; where nothing
is declared twice, it shows in the order of the entries only. -/
theorem ofDecls_of_perm {decls others : List ExternDecl} (order : decls.Perm others) :
    SameKeys (ofDecls decls).1 (ofDecls others).1 ∧
      (ofDecls decls).2.countP (fun w => w.kind == .duplicate) =
        (ofDecls others).2.countP (fun w => w.kind == .duplicate) ∧
      (ofDecls decls).2.countP (fun w => w.kind == .unresolved) =
        (ofDecls others).2.countP (fun w => w.kind == .unresolved) ∧
      ((ofDecls decls).2.countP (fun w => w.kind == .duplicate) = 0 →
        SameEntries (ofDecls decls).1 (ofDecls others).1) := by
  have left := keeps_ofDecls decls
  have right := keeps_ofDecls others
  have passes := ExternDecl.perm_passes_of_perm order
  have orphans := isOrphan_of_perm passes
  have duplicates : (ofDecls decls).2.countP (fun w => w.kind == .duplicate) =
      (ofDecls others).2.countP (fun w => w.kind == .duplicate) := by
    have here := left.length_add_countP_duplicate
    have there := right.length_add_countP_duplicate
    rw [← orphans, ← passes.countP_eq, ← (left.perm_keys right passes).length_eq] at there
    omega
  refine ⟨left.sameKeys right passes, duplicates, ?_, ?_⟩
  · rw [left.countP_unresolved, right.countP_unresolved, orphans, passes.countP_eq]
  · intro unique
    refine left.sameEntries right (isGrouped_ofDecls decls) (isGrouped_ofDecls others) ?_
    refine (left.perm_records unique).trans (List.Perm.trans ?_ (right.perm_records (duplicates ▸ unique)).symm)
    rw [orphans]
    exact passes.filter _

/-- Members before their type, one without a type, and an entry of a namespace. -/
def scatteredDecls : List ExternDecl :=
  [.entry true { kind := .method, owner := "A", name := "f", isStatic := true },
    .entry true { kind := .field, owner := "B", name := "x", isStatic := true },
    .entry true { kind := .method, owner := "space", name := "g", isStatic := true },
    .entry false { kind := .constant, owner := "A", name := "limit" }, .type { kind := .classType, name := "A" } [] [],
    .namespace "space", .entry false { kind := .method, owner := "A", name := "f" }]

theorem ofDecls_reverse_scatteredDecls :
    scatteredDecls.Perm scatteredDecls.reverse ∧
      (ofDecls scatteredDecls).2.countP (fun w => w.kind == .duplicate) = 0 ∧
      (ofDecls scatteredDecls.reverse).2.countP (fun w => w.kind == .unresolved) = 1 ∧
      SameEntries (ofDecls scatteredDecls).1 (ofDecls scatteredDecls.reverse).1 := by
  have order : scatteredDecls.Perm scatteredDecls.reverse := scatteredDecls.reverse_perm.symm
  obtain ⟨_, _, orphans, entries⟩ := ofDecls_of_perm order
  refine ⟨order, by decide, ?_, entries (by decide)⟩
  rw [← orphans]
  decide

end ExternModel

end ScriptBuild
