import Mathlib.Data.List.Induction
import Mathlib.Data.List.Nodup
import Mathlib.Data.List.Perm.Basic
import ScriptBuild.Stub.Model

/-! What a model records of a corpus. -/

namespace ScriptBuild

open List ExternClass ExternModel

namespace ExternClass

theorem name_add (c : ExternClass) (e : Entry) : (c.add e).name = c.name := by
  unfold add
  split <;> rfl

theorem perm_members_add (c : ExternClass) (e : Entry) : (c.add e).members.Perm (e :: c.members) := by
  unfold add members
  split
  · rw [← append_assoc]
    exact perm_append_singleton e _
  · rw [append_assoc, append_assoc, append_assoc]
    exact perm_middle
  · rw [← append_assoc, append_assoc (c.constants ++ c.fields)]
    exact perm_middle

end ExternClass

variable {corpus : List ExternDecl} {name owner : Text} {c : ExternClass} {isStatic : Bool} {first : Entry}

/-- What records are told apart by. -/
inductive RecordKey where
  | type (name : Text)
  | top (name : Text)
  | member (owner name : Text) (isStatic : Bool)
  deriving DecidableEq

/-- Whether a record with the first key stands in the way of one with the second. The name of a type is taken from
the entries at top level as well. -/
inductive RecordKey.Blocks : RecordKey → RecordKey → Prop where
  | same (k : RecordKey) : Blocks k k
  | type (name : Text) : Blocks (.type name) (.top name)

theorem RecordKey.Blocks.eq_or {k l : RecordKey} (blocks : k.Blocks l) :
    k = l ∨ ∃ name, k = .type name ∧ l = .top name := by
  cases blocks with
  | same => exact .inl rfl
  | type name => exact .inr ⟨name, rfl, rfl⟩

def Entry.isTop (e : Entry) : Bool := e.kind == .typedef || !e.isMember

/-- A declaration with its owner settled. -/
inductive ExternRecord where
  | type (entry : Entry) (superTypes interfaces : List Text)
  | entry (entry : Entry)

namespace ExternRecord

def isType : ExternRecord → Bool
  | .type _ _ _ => true
  | .entry _ => false

def declared : ExternRecord → Entry
  | .type e _ _ => e
  | .entry e => e

def key : ExternRecord → RecordKey
  | .type e _ _ => .type e.name
  | .entry e => if e.isTop then .top e.name else .member e.owner e.name e.isStatic

variable {r : ExternRecord} {e : Entry}

theorem key_top (top : e.isTop) : (entry e).key = .top e.name := by simp [key, top]

theorem key_member (inside : e.isTop = false) : (entry e).key = .member e.owner e.name e.isStatic := by
  simp [key, inside]

theorem isType_iff_exists_key : r.isType ↔ ∃ name, r.key = .type name := by
  cases r with
  | type e _ _ => simp [isType, key]
  | entry e => by_cases top : e.isTop <;> simp [isType, key, top]

end ExternRecord

namespace ExternDecl

def typeNames (corpus : List ExternDecl) : List Text :=
  corpus.filterMap fun
    | .type e _ _ => some e.name
    | .namespace _ | .entry _ _ => none

def settledIn (corpus : List ExternDecl) (isDotted : Bool) (e : Entry) : Entry :=
  if isDotted && !(typeNames corpus).contains e.owner && (namespacesOf corpus).contains e.owner then
    lifted e
  else e

/-- What there is to record of a declaration. -/
def record? (corpus : List ExternDecl) : ExternDecl → Option ExternRecord
  | .namespace _ => none
  | .type e superTypes interfaces => some (.type e superTypes interfaces)
  | .entry isDotted e => some (.entry (settledIn corpus isDotted e))

def records (corpus : List ExternDecl) : List ExternRecord := corpus.filterMap (record? corpus)

theorem mem_typeNames : name ∈ typeNames corpus ↔ ∃ r ∈ records corpus, r.key = .type name := by
  constructor
  · intro mem
    obtain ⟨d, declared, named⟩ := mem_filterMap.mp mem
    cases d with
    | type e superTypes interfaces =>
      exact ⟨_, mem_filterMap.mpr ⟨_, declared, rfl⟩, congrArg RecordKey.type (Option.some.inj named)⟩
    | «namespace» | entry => cases named
  · rintro ⟨r, recorded, same⟩
    obtain ⟨d, declared, found⟩ := mem_filterMap.mp recorded
    have type := ExternRecord.isType_iff_exists_key.mpr ⟨name, same⟩
    cases d with
    | type e _ _ =>
      cases found
      exact mem_filterMap.mpr ⟨_, declared, congrArg some (RecordKey.type.inj same)⟩
    | «namespace» _ => cases found
    | entry _ _ =>
      cases found
      cases type

theorem length_eq (corpus : List ExternDecl) :
    corpus.length = (namespacesOf corpus).length + (records corpus).length := by
  have each : ∀ decls : List ExternDecl,
      decls.length = (namespacesOf decls).length + (decls.filterMap (record? corpus)).length := by
    intro decls
    induction decls with
    | nil => rfl
    | cons d decls ih =>
      cases d <;>
        simp only [namespacesOf, filterMap_cons, record?, length_cons] at ih ⊢ <;> omega
  exact each corpus

end ExternDecl

namespace ExternModel

variable {m : ExternModel} {e : Entry} {r : ExternRecord}

def ofClass (c : ExternClass) : ExternRecord := .type c.entry c.superTypes c.interfaces

def records (m : ExternModel) : List ExternRecord :=
  m.classes.map ofClass ++ (m.topLevel ++ m.classes.flatMap members).map .entry

def keys (m : ExternModel) : List RecordKey := m.records.map ExternRecord.key

/-- What tells a member from all others: owner, name and access. -/
def memberKeys (m : ExternModel) : List (Text × Text × Bool) :=
  m.classes.flatMap fun c => c.members.map fun e => (c.name, e.name, e.isStatic)

theorem mem_records : r ∈ m.records ↔ (∃ c ∈ m.classes, ofClass c = r) ∨
    ∃ e, (e ∈ m.topLevel ∨ ∃ c ∈ m.classes, e ∈ c.members) ∧ .entry e = r := by
  simp only [records, mem_append, mem_map, mem_flatMap]

theorem size_eq_length_records (m : ExternModel) : m.size = m.records.length := by
  have count : ∀ (classes : List ExternClass) (n : Nat), (classes.map fun c => 1 + c.members.length).foldl (· + ·) n =
        n + classes.length + (classes.flatMap members).length := by
    intro classes
    induction classes with
    | nil => simp
    | cons c classes ih =>
      simp only [map_cons, foldl_cons, ih, length_cons, flatMap_cons, length_append]
      omega
  simp only [size, count, records, length_append, length_map]
  omega

/-- A model with no key twice that has entries and members where they belong. -/
structure IsFiled (m : ExternModel) : Prop where
  nodup : m.keys.Nodup
  top : ∀ e ∈ m.topLevel, e.isTop
  inside : ∀ c ∈ m.classes, ∀ e ∈ c.members, e.isTop = false ∧ e.owner = c.name

theorem perm_keys {later : ExternModel} (more : later.records.Perm (r :: m.records)) :
    later.keys.Perm (r.key :: m.keys) :=
  more.map _

theorem mem_keys_of_mem (recorded : r ∈ m.records) : r.key ∈ m.keys := mem_map_of_mem recorded

theorem mem_keys_type : .type name ∈ m.keys ↔ ∃ c ∈ m.classes, c.name = name := by
  constructor
  · intro mem
    obtain ⟨r, recorded, same⟩ := mem_map.mp mem
    rcases mem_records.mp recorded with ⟨c, held, rfl⟩ | ⟨e, _, rfl⟩
    · exact ⟨c, held, RecordKey.type.inj same⟩
    · cases ExternRecord.isType_iff_exists_key.mpr ⟨name, same⟩
  · rintro ⟨c, held, rfl⟩
    exact mem_keys_of_mem (mem_records.mpr (.inl ⟨c, held, rfl⟩))

theorem class?_eq_none_iff : m.class? name = none ↔ .type name ∉ m.keys := by
  simp [class?, mem_keys_type]

theorem of_class? (found : m.class? name = some c) : c ∈ m.classes ∧ c.name = name :=
  ⟨mem_of_find?_eq_some found, by simpa using find?_some found⟩

namespace IsFiled

variable (filed : m.IsFiled)

include filed

theorem keys_eq : m.keys = (m.classes.map ExternClass.name).map .type ++
    ((m.topLevel.map Entry.name).map .top ++ m.memberKeys.map fun k => .member k.1 k.2.1 k.2.2) := by
  simp only [keys, records, memberKeys, map_append, map_map, map_flatMap]
  congr 2
  · exact map_congr_left fun e there => ExternRecord.key_top (filed.top e there)
  · refine flatMap_congr fun c held => map_congr_left fun e inside => ?_
    obtain ⟨outside, own⟩ := filed.inside c held e inside
    exact (ExternRecord.key_member outside).trans (own ▸ rfl)

theorem nodup_parts : (m.classes.map ExternClass.name).Nodup ∧ (m.topLevel.map Entry.name).Nodup ∧
    m.memberKeys.Nodup := by
  obtain ⟨types, entries, _⟩ := nodup_append.mp (filed.keys_eq ▸ filed.nodup)
  obtain ⟨top, inside, _⟩ := nodup_append.mp entries
  exact ⟨types.of_map, top.of_map, inside.of_map⟩

theorem eq_of_name {d : ExternClass} (left : c ∈ m.classes) (right : d ∈ m.classes) (same : c.name = d.name) : c = d :=
  inj_on_of_nodup_map filed.nodup_parts.1 left right same

theorem nodup_memberKeys (held : c ∈ m.classes) : (c.members.map fun e => (c.name, e.name, e.isStatic)).Nodup :=
  (nodup_flatMap.mp filed.nodup_parts.2.2).1 c held

/-- A class has one member at most for a name and a kind of access. -/
theorem distinct_members (held : c ∈ m.classes) :
    c.members.Pairwise fun a b => ¬ (a.name = b.name ∧ a.isStatic = b.isStatic) :=
  (pairwise_map.mp (filed.nodup_memberKeys held)).imp fun different same => different (by rw [same.1, same.2])

theorem mem_topLevel_iff : e ∈ m.topLevel ↔ .entry e ∈ m.records ∧ e.isTop := by
  constructor
  · exact fun there => ⟨mem_records.mpr (.inr ⟨e, .inl there, rfl⟩), filed.top e there⟩
  · rintro ⟨recorded, top⟩
    rcases mem_records.mp recorded with ⟨_, _, ⟨⟩⟩ | ⟨_, there | ⟨c, held, inside⟩, ⟨⟩⟩
    · exact there
    · rw [(filed.inside c held e inside).1] at top
      cases top

theorem mem_members_iff (held : c ∈ m.classes) :
    e ∈ c.members ↔ .entry e ∈ m.records ∧ e.isTop = false ∧ e.owner = c.name := by
  constructor
  · intro inside
    exact ⟨mem_records.mpr (.inr ⟨e, .inr ⟨c, held, inside⟩, rfl⟩), filed.inside c held e inside⟩
  · rintro ⟨recorded, outside, owned⟩
    rcases mem_records.mp recorded with ⟨_, _, ⟨⟩⟩ | ⟨_, there | ⟨d, other, inside⟩, ⟨⟩⟩
    · rw [filed.top e there] at outside
      cases outside
    · have named : d.name = c.name := (filed.inside d other e inside).2.symm.trans owned
      exact filed.eq_of_name other held named ▸ inside

theorem mem_keys_top : .top name ∈ m.keys ↔ ∃ e ∈ m.topLevel, e.name = name := by simp [filed.keys_eq]

theorem mem_keys_member : .member owner name isStatic ∈ m.keys ↔ (owner, name, isStatic) ∈ m.memberKeys := by
  cases isStatic <;> simp [filed.keys_eq]

/-- The entry that has a name already is at top level or that of a type. -/
theorem of_holder? (found : m.holder? name = some first) :
    ∃ r ∈ m.records, r.key.Blocks (.top name) ∧ r.declared = first := by
  rcases Option.or_eq_some_iff.mp found with top | ⟨_, type⟩
  · have there := mem_of_find?_eq_some top
    have named : first.name = name := by simpa using find?_some top
    obtain ⟨recorded, isTop⟩ := filed.mem_topLevel_iff.mp there
    refine ⟨.entry first, recorded, ?_, rfl⟩
    rw [ExternRecord.key_top isTop, named]
    exact .same _
  · obtain ⟨c, there, rfl⟩ := Option.map_eq_some_iff.mp type
    obtain ⟨held, rfl⟩ := of_class? there
    exact ⟨ofClass c, mem_records.mpr (.inl ⟨c, held, rfl⟩), .type _, rfl⟩

theorem not_blocked_of_holder? (free : m.holder? name = none) : ∀ k ∈ m.keys, ¬ k.Blocks (.top name) := by
  obtain ⟨noEntry, noType⟩ := Option.or_eq_none_iff.mp free
  intro k mem blocks
  cases blocks with
  | same =>
    obtain ⟨e, there, named⟩ := filed.mem_keys_top.mp mem
    have differs := find?_eq_none.mp noEntry e there
    simp [named] at differs
  | type => exact class?_eq_none_iff.mp (Option.map_eq_none_iff.mp noType) mem

theorem of_member? (found : m.class? owner = some c) (taken : c.member? name isStatic = some first) :
    ∃ r ∈ m.records, r.key = .member owner name isStatic ∧ r.declared = first := by
  obtain ⟨held, rfl⟩ := of_class? found
  have inside := mem_of_find?_eq_some taken
  have same : first.name = name ∧ first.isStatic = isStatic := by simpa using find?_some taken
  obtain ⟨recorded, outside, owned⟩ := (filed.mem_members_iff held).mp inside
  refine ⟨.entry first, recorded, ?_, rfl⟩
  rw [ExternRecord.key_member outside, owned, same.1, same.2]

theorem not_mem_keys_of_member? (found : m.class? owner = some c) (free : c.member? name isStatic = none) :
    .member owner name isStatic ∉ m.keys := by
  intro mem
  obtain ⟨d, held, inside⟩ := mem_flatMap.mp (filed.mem_keys_member.mp mem)
  obtain ⟨e, within, ⟨⟩⟩ := mem_map.mp inside
  obtain ⟨there, named⟩ := of_class? found
  rw [filed.eq_of_name held there named.symm] at within
  have differs := find?_eq_none.mp free e within
  simp at differs

end IsFiled

def addRecord (m : ExternModel) : ExternRecord → ExternModel × List Diagnostic
  | .type entry superTypes interfaces => m.addClass { entry, superTypes, interfaces }
  | .entry e => m.addEntry e

/-- Why a declaration is not recorded. -/
inductive Reports (m : ExternModel) (r : ExternRecord) : Diagnostic → Prop where
  | duplicate {first : ExternRecord} (recorded : first ∈ m.records) (blocks : first.key.Blocks r.key) :
      Reports m r (duplicate r.declared first.declared)
  | ownerless {owner name : Text} {isStatic : Bool} (member : r.key = .member owner name isStatic)
      (absent : .type owner ∉ m.keys) : Reports m r (ownerless r.declared)

/-- What adding a declaration comes to: it is recorded, or it is reported and the model stays as it is. -/
inductive Adds (m : ExternModel) (r : ExternRecord) : ExternModel × List Diagnostic → Prop where
  | recorded {later : ExternModel} (filed : later.IsFiled) (more : later.records.Perm (r :: m.records))
      (free : ∀ k ∈ m.keys, ¬ k.Blocks r.key)
      (owned : ∀ {owner name isStatic}, r.key = .member owner name isStatic → .type owner ∈ m.keys) :
      Adds m r (later, [])
  | reported {w : Diagnostic} (reason : Reports m r w) : Adds m r (m, [w])

theorem IsFiled.adds {later : ExternModel} (filed : m.IsFiled) (top : ∀ e ∈ later.topLevel, e.isTop)
    (inside : ∀ c ∈ later.classes, ∀ e ∈ c.members, e.isTop = false ∧ e.owner = c.name)
    (more : later.records.Perm (r :: m.records)) (free : ∀ k ∈ m.keys, ¬ k.Blocks r.key)
    (owned : ∀ {owner name isStatic}, r.key = .member owner name isStatic → .type owner ∈ m.keys) :
    Adds m r (later, []) := by
  refine .recorded ⟨?_, top, inside⟩ more free owned
  rw [(perm_keys more).nodup_iff, nodup_cons]
  exact ⟨fun taken => free _ taken (.same _), filed.nodup⟩

theorem perm_topLevel_addTopLevel (m : ExternModel) (e : Entry) :
    (m.addTopLevel e).topLevel.Perm (e :: m.topLevel) := by
  unfold addTopLevel topLevel
  split
  · simp only [append_assoc]
    exact perm_middle
  · simp only [append_assoc, singleton_append]
    rw [← append_assoc, ← append_assoc]
    exact perm_middle
  · rw [← append_assoc]
    exact perm_append_singleton e _

theorem classes_addTopLevel (m : ExternModel) (e : Entry) : (m.addTopLevel e).classes = m.classes := by
  unfold addTopLevel
  split <;> rfl

theorem perm_members_addMember (filed : m.IsFiled) (found : m.class? e.owner = some c) :
    ((m.addMember e).classes.flatMap members).Perm (e :: m.classes.flatMap members) := by
  obtain ⟨held, named⟩ := of_class? found
  obtain ⟨front, back, split⟩ := append_of_mem held
  have distinct := filed.nodup_parts.1
  have others : ∀ d ∈ front ++ back, (if d.name == e.owner then d.add e else d) = d := by
    intro d mem
    rw [split, map_append, map_cons, nodup_middle, ← map_append] at distinct
    have differs : d.name ≠ c.name := fun same =>
      (nodup_cons.mp distinct).1 (same ▸ mem_map_of_mem mem)
    rw [if_neg (by simpa [← named] using differs)]
  have kept : ∀ part : List ExternClass, part ⊆ front ++ back →
      part.map (fun d => if d.name == e.owner then d.add e else d) = part := fun part within =>
    (map_congr_left fun d mem => others d (within mem)).trans (map_id part)
  rw [addMember, split]
  simp only [map_append, map_cons, kept front (subset_append_left _ _),
    kept back (subset_append_right _ _), named, beq_self_eq_true, if_true, flatMap_append,
    flatMap_cons]
  exact (((c.perm_members_add e).append_right _).append_left _).trans perm_middle

theorem records_addTopLevel (m : ExternModel) (e : Entry) : (m.addTopLevel e).records.Perm (.entry e :: m.records) := by
  unfold records
  rw [classes_addTopLevel]
  refine (((perm_topLevel_addTopLevel m e).append_right _).map _).append_left _ |>.trans ?_
  exact perm_middle

theorem records_addMember (filed : m.IsFiled) (found : m.class? e.owner = some c) :
    (m.addMember e).records.Perm (.entry e :: m.records) := by
  have types : (m.addMember e).classes.map ofClass = m.classes.map ofClass := by
    rw [addMember, map_map]
    refine map_congr_left fun d _ => ?_
    rw [Function.comp_apply]
    split
    · unfold add
      split <;> rfl
    · rfl
  unfold records
  rw [types]
  refine (((perm_members_addMember filed found).append_left m.topLevel).map _).append_left _ |>.trans ?_
  simp only [map_append]
  rw [← append_assoc, ← append_assoc]
  exact perm_middle

theorem adds_addClass (filed : m.IsFiled) (empty : c.members = []) : Adds m (ofClass c) (m.addClass c) := by
  unfold addClass
  cases found : m.class? c.name with
  | some first =>
    obtain ⟨held, named⟩ := of_class? found
    have recorded := mem_records.mpr (.inl ⟨first, held, rfl⟩)
    have same : (ofClass first).key = (ofClass c).key := congrArg RecordKey.type named
    exact .reported (.duplicate recorded (same ▸ .same _))
  | none =>
    refine filed.adds filed.top ?_ ?_ ?_ nofun
    · intro d mem e inside
      rcases mem_append.mp mem with old | new
      · exact filed.inside d old e inside
      · rw [mem_singleton.mp new, empty] at inside
        cases inside
    · simp only [records, topLevel, map_append, flatMap_append, map_singleton, flatMap_singleton,
        empty, append_nil, append_assoc, singleton_append]
      exact perm_middle
    · intro k mem blocks
      cases blocks
      exact class?_eq_none_iff.mp found mem

theorem adds_addEntry (filed : m.IsFiled) (e : Entry) : Adds m (.entry e) (m.addEntry e) := by
  unfold addEntry
  split
  · rename_i top
    have key := ExternRecord.key_top top
    cases taken : m.holder? e.name with
    | some first =>
      obtain ⟨r, recorded, blocks, rfl⟩ := filed.of_holder? taken
      exact .reported (.duplicate recorded (key ▸ blocks))
    | none =>
      refine filed.adds ?_ ?_ (records_addTopLevel m e) (key ▸ filed.not_blocked_of_holder? taken) ?_
      · intro x mem
        rcases mem_cons.mp ((perm_topLevel_addTopLevel m e).mem_iff.mp mem) with rfl | old
        · exact top
        · exact filed.top x old
      · rw [classes_addTopLevel]
        exact filed.inside
      · intro owner name isStatic mem
        rw [key] at mem
        cases mem
  · rename_i outside
    have inside : e.isTop = false := by simpa [Entry.isTop] using outside
    have key := ExternRecord.key_member inside
    cases found : m.class? e.owner with
    | none => exact .reported (.ownerless key (class?_eq_none_iff.mp found))
    | some c =>
      dsimp only
      cases taken : c.member? e.name e.isStatic with
      | some first =>
        obtain ⟨r, recorded, same, rfl⟩ := filed.of_member? found taken
        refine .reported (.duplicate recorded ?_)
        rw [same, key]
        exact .same _
      | none =>
        have fresh := filed.not_mem_keys_of_member? found taken
        refine filed.adds filed.top ?_ (records_addMember filed found) ?_ ?_
        · intro d mem x within
          obtain ⟨old, held, rfl⟩ := mem_map.mp mem
          split at within
          · rename_i named
            rw [if_pos named, name_add]
            rcases mem_cons.mp ((old.perm_members_add e).mem_iff.mp within) with rfl | earlier
            · exact ⟨inside, (eq_of_beq named).symm⟩
            · exact filed.inside old held x earlier
          · rename_i other
            rw [if_neg other]
            exact filed.inside old held x within
        · intro k mem blocks
          rw [key] at blocks
          cases blocks
          exact fresh mem
        · intro owner name isStatic mem
          rw [key] at mem
          cases mem
          obtain ⟨held, named⟩ := of_class? found
          exact mem_keys_type.mpr ⟨c, held, named⟩

theorem adds_addRecord (filed : m.IsFiled) (r : ExternRecord) : Adds m r (m.addRecord r) := by
  cases r with
  | type entry superTypes interfaces => exact adds_addClass filed (c := { entry, superTypes, interfaces }) rfl
  | entry e => exact adds_addEntry filed e

def recordStep (s : ExternModel × List Diagnostic) (r : ExternRecord) : ExternModel × List Diagnostic :=
  ((s.1.addRecord r).1, s.2 ++ (s.1.addRecord r).2)

/-- What holds of a model, and of what was reported, after some declarations. -/
structure Keeps (rs : List ExternRecord) (s : ExternModel × List Diagnostic) : Prop where
  filed : s.1.IsFiled
  apart : ∀ name, .type name ∈ s.1.keys → .top name ∉ s.1.keys
  parts : ∃ reports : List (ExternRecord × Diagnostic), s.2 = reports.map (·.2) ∧
    (s.1.records ++ reports.map (·.1)).Perm rs ∧ ∀ p ∈ reports, s.1.Reports p.1 p.2
  first : ∀ r ∈ s.1.records, rs.find? (fun x => x.key == r.key) = some r

theorem keeps_nil : Keeps [] ({}, []) where
  filed := ⟨nodup_nil, forall_mem_nil _, forall_mem_nil _⟩
  apart _ taken := absurd taken not_mem_nil
  parts := ⟨[], rfl, .refl _, forall_mem_nil _⟩
  first := forall_mem_nil _

namespace Keeps

variable {rs : List ExternRecord} {s : ExternModel × List Diagnostic} (keeps : Keeps rs s)

include keeps

theorem recorded_or_reported {x : ExternRecord} (mem : x ∈ rs) : x ∈ s.1.records ∨ ∃ w, s.1.Reports x w := by
  obtain ⟨reports, _, all, reasons⟩ := keeps.parts
  rcases mem_append.mp (all.mem_iff.mpr mem) with recorded | out
  · exact .inl recorded
  · obtain ⟨p, inside, rfl⟩ := mem_map.mp out
    exact .inr ⟨p.2, reasons p inside⟩

theorem subset : s.1.records ⊆ rs := by
  obtain ⟨reports, _, all, _⟩ := keeps.parts
  exact fun r recorded => all.mem_iff.mp (mem_append_left _ recorded)

theorem mem_keys_type_iff : .type name ∈ s.1.keys ↔ ∃ x ∈ rs, x.key = .type name := by
  constructor
  · intro mem
    obtain ⟨x, recorded, same⟩ := mem_map.mp mem
    exact ⟨x, keeps.subset recorded, same⟩
  · rintro ⟨x, mem, same⟩
    rcases keeps.recorded_or_reported mem with recorded | ⟨w, reason⟩
    · exact same ▸ mem_keys_of_mem recorded
    · cases reason with
      | duplicate recorded blocks =>
        rcases blocks.eq_or with earlier | ⟨_, _, top⟩
        · exact same ▸ earlier ▸ mem_keys_of_mem recorded
        · cases same.symm.trans top
      | ownerless inside _ => cases same.symm.trans inside

/-- A declaration that can be recorded is the first with its key. -/
theorem find?_eq_none (free : ∀ k ∈ s.1.keys, ¬ k.Blocks r.key)
    (owned : ∀ {owner name isStatic}, r.key = .member owner name isStatic → .type owner ∈ s.1.keys) :
    rs.find? (fun x => x.key == r.key) = none := by
  rw [List.find?_eq_none]
  intro x mem equal
  have same : x.key = r.key := eq_of_beq equal
  rcases keeps.recorded_or_reported mem with recorded | ⟨w, reason⟩
  · exact free x.key (mem_keys_of_mem recorded) (same ▸ .same _)
  · cases reason with
    | duplicate recorded blocks => exact free _ (mem_keys_of_mem recorded) (same ▸ blocks)
    | ownerless inside absent => exact absent (owned (same ▸ inside))

theorem report {w : Diagnostic} (reason : s.1.Reports r w) : Keeps (rs ++ [r]) (s.1, s.2 ++ [w]) where
  filed := keeps.filed
  apart := keeps.apart
  parts := by
    obtain ⟨reports, warnings, all, reasons⟩ := keeps.parts
    refine ⟨reports ++ [(r, w)], by simp [warnings], ?_, ?_⟩
    · rw [map_append, ← append_assoc]
      exact all.append_right _
    · intro p mem
      rcases mem_append.mp mem with old | new
      · exact reasons p old
      · rw [mem_singleton.mp new]
        exact reason
  first x recorded := by rw [find?_append, keeps.first x recorded, Option.some_or]

/-- As long as all types come before all entries, no report is made void by what is recorded later. -/
theorem record {later : ExternModel} (order : r.isType → ∀ x ∈ rs, x.isType) (filed : later.IsFiled)
    (more : later.records.Perm (r :: s.1.records)) (free : ∀ k ∈ s.1.keys, ¬ k.Blocks r.key)
    (owned : ∀ {owner name isStatic}, r.key = .member owner name isStatic → .type owner ∈ s.1.keys) :
    Keeps (rs ++ [r]) (later, s.2) := by
  have keys := perm_keys more
  have onlyTypes : ∀ {name : Text}, r.key = .type name → ∀ x ∈ rs, ∃ other, x.key = .type other := by
    intro name type x mem
    exact ExternRecord.isType_iff_exists_key.mp (order (ExternRecord.isType_iff_exists_key.mpr ⟨name, type⟩) x mem)
  refine ⟨filed, ?_, ?_, ?_⟩
  · intro name type top
    rcases mem_cons.mp (keys.mem_iff.mp type) with newType | oldType
    · rcases mem_cons.mp (keys.mem_iff.mp top) with newTop | oldTop
      · rw [← newType] at newTop
        cases newTop
      · obtain ⟨x, recorded, same⟩ := mem_map.mp oldTop
        obtain ⟨other, clash⟩ := onlyTypes newType.symm x (keeps.subset recorded)
        rw [same] at clash
        cases clash
    · rcases mem_cons.mp (keys.mem_iff.mp top) with newTop | oldTop
      · exact free _ oldType (newTop ▸ .type name)
      · exact keeps.apart name oldType oldTop
  · obtain ⟨reports, warnings, all, reasons⟩ := keeps.parts
    refine ⟨reports, warnings, ?_, ?_⟩
    · refine (more.append_right _).trans ?_
      exact (all.cons r).trans (perm_append_singleton r rs).symm
    · rintro ⟨x, w⟩ mem
      have processed : x ∈ rs := all.mem_iff.mp (mem_append_right _ (mem_map_of_mem mem))
      have reason : s.1.Reports x w := reasons (x, w) mem
      cases reason with
      | duplicate recorded blocks => exact .duplicate (more.mem_iff.mpr (mem_cons_of_mem r recorded)) blocks
      | ownerless inside absent =>
        refine .ownerless inside fun declared => ?_
        rcases mem_cons.mp (keys.mem_iff.mp declared) with new | old
        · obtain ⟨other, clash⟩ := onlyTypes new.symm x processed
          cases inside.symm.trans clash
        · exact absent old
  · intro x recorded
    rw [find?_append]
    rcases mem_cons.mp (more.mem_iff.mp recorded) with rfl | old
    · rw [keeps.find?_eq_none free owned]
      simp
    · rw [keeps.first x old, Option.some_or]

theorem recordStep (order : r.isType → ∀ x ∈ rs, x.isType) : Keeps (rs ++ [r]) (recordStep s r) := by
  unfold ExternModel.recordStep
  generalize outcome : s.1.addRecord r = result
  have adds := adds_addRecord keeps.filed r
  rw [outcome] at adds
  cases adds with
  | recorded filed more free owned =>
    rw [append_nil]
    exact keeps.record order filed more free owned
  | reported reason => exact keeps.report reason

end Keeps

theorem keeps_foldl (rs : List ExternRecord) (order : rs.Pairwise fun x r => r.isType → x.isType) :
    Keeps rs (rs.foldl recordStep ({}, [])) := by
  induction rs using reverseRecOn with
  | nil => exact keeps_nil
  | append_singleton rs r ih =>
    obtain ⟨earlier, _, last⟩ := pairwise_append.mp order
    rw [foldl_append]
    exact (ih earlier).recordStep fun type x mem => last x mem r (mem_singleton_self r) type

theorem foldl_classStep (corpus decls : List ExternDecl) : ∀ s, decls.foldl classStep s =
      ((decls.filterMap (ExternDecl.record? corpus)).filter ExternRecord.isType).foldl recordStep s := by
  induction decls with
  | nil => exact fun _ => rfl
  | cons d decls ih =>
    intro s
    rw [foldl_cons, ih]
    cases d <;> rfl

/-- The names of the types after the first pass settle the owners of all entries. -/
theorem settled_eq (names : ∀ name, .type name ∈ m.keys ↔ name ∈ ExternDecl.typeNames corpus) (isDotted : Bool) (e : Entry) :
    m.settled (namespacesOf corpus) isDotted e = ExternDecl.settledIn corpus isDotted e := by
  have known : (m.class? e.owner).isNone = !(ExternDecl.typeNames corpus).contains e.owner := by
    rw [Bool.eq_iff_iff, Option.isNone_iff_eq_none, class?_eq_none_iff, names]
    simp
  rw [settled, known, ExternDecl.settledIn]

theorem addRecord_entry (filed : m.IsFiled) (e : Entry) : (m.addRecord (.entry e)).1.IsFiled ∧
    ∀ name, .type name ∈ (m.addRecord (.entry e)).1.keys ↔ .type name ∈ m.keys := by
  have adds := adds_addRecord filed (.entry e)
  generalize m.addRecord (.entry e) = result at adds
  cases adds with
  | recorded later more =>
    refine ⟨later, fun name => (perm_keys more).mem_iff.trans ?_⟩
    rw [mem_cons, or_iff_right]
    intro type
    cases ExternRecord.isType_iff_exists_key.mpr ⟨name, type.symm⟩
  | reported => exact ⟨filed, fun _ => .rfl⟩

theorem foldl_entryStep (corpus decls : List ExternDecl) : ∀ s : ExternModel × List Diagnostic, s.1.IsFiled →
    (∀ name, .type name ∈ s.1.keys ↔ name ∈ ExternDecl.typeNames corpus) →
    decls.foldl (entryStep (namespacesOf corpus)) s =
      ((decls.filterMap (ExternDecl.record? corpus)).filter fun r => !r.isType).foldl recordStep s := by
  induction decls with
  | nil => exact fun _ _ _ => rfl
  | cons d decls ih =>
    intro s filed names
    cases d with
    | «namespace» | type => exact ih s filed names
    | entry isDotted e =>
      have step : entryStep (namespacesOf corpus) s (.entry isDotted e) =
          recordStep s (.entry (ExternDecl.settledIn corpus isDotted e)) := by
        rw [← settled_eq names]
        rfl
      obtain ⟨later, same⟩ := addRecord_entry filed (ExternDecl.settledIn corpus isDotted e)
      rw [foldl_cons, step]
      exact ih _ later fun name => (same name).trans (names name)

end ExternModel

namespace ExternDecl

/-- The records of a corpus in the order they are taken: all types before all entries. -/
def passes (corpus : List ExternDecl) : List ExternRecord :=
  (records corpus).filter ExternRecord.isType ++ (records corpus).filter fun r => !r.isType

variable (corpus : List ExternDecl)

theorem perm_passes : (passes corpus).Perm (records corpus) :=
  filter_append_perm ExternRecord.isType (records corpus)

theorem pairwise_passes : (passes corpus).Pairwise fun x r => r.isType → x.isType := by
  rw [passes, pairwise_append]
  refine ⟨?_, ?_, ?_⟩
  · exact pairwise_of_forall_mem_list fun x inside _ _ _ => (mem_filter.mp inside).2
  · refine pairwise_of_forall_mem_list fun _ _ r inside type => ?_
    simp [type] at inside
  · exact fun x inside _ _ _ => (mem_filter.mp inside).2

/-- Types and entries have no key in common, so both orders have the same first record with a key. -/
theorem find?_passes (k : RecordKey) :
    (passes corpus).find? (fun x => x.key == k) = (records corpus).find? fun x => x.key == k := by
  obtain ⟨type, same⟩ : ∃ type, ∀ x : ExternRecord, x.key = k → x.isType = type := by
    classical
    refine ⟨decide (∃ name, k = .type name), fun x same => ?_⟩
    rw [Bool.eq_iff_iff, ExternRecord.isType_iff_exists_key, same, decide_eq_true_iff]
  have part : ∀ (p : ExternRecord → Bool) (all : Bool), (∀ x : ExternRecord, x.key = k → p x = all) →
      ((records corpus).filter p).find? (fun x => x.key == k) =
        if all then (records corpus).find? fun x => x.key == k else none := by
    intro p all same
    have each : ∀ x : ExternRecord, decide (p x ∧ x.key == k) = (all && x.key == k) := by
      intro x
      by_cases here : x.key = k
      · simp [here, same x here]
      · simp [here]
    simp only [find?_filter, each]
    cases all <;> simp
  rw [passes, find?_append, part _ type same, part _ (!type) fun x here => by rw [same x here]]
  cases type <;> simp

end ExternDecl

namespace ExternModel

theorem ofDecls_eq_foldl (decls : List ExternDecl) :
    ofDecls decls = (ExternDecl.passes decls).foldl recordStep ({}, []) := by
  have order := pairwise_append.mp (ExternDecl.pairwise_passes decls)
  have types := keeps_foldl _ order.1
  rw [ExternDecl.records, ← foldl_classStep] at types
  have names : ∀ name, .type name ∈ (decls.foldl classStep ({}, [])).1.keys ↔ name ∈ ExternDecl.typeNames decls := by
    intro name
    rw [types.mem_keys_type_iff, ExternDecl.mem_typeNames]
    simp only [mem_filter, ExternRecord.isType_iff_exists_key]
    exact ⟨fun ⟨r, ⟨inside, _⟩, same⟩ => ⟨r, inside, same⟩, fun ⟨r, inside, same⟩ => ⟨r, ⟨inside, name, same⟩, same⟩⟩
  rw [ofDecls, foldl_entryStep decls decls _ types.filed names, foldl_classStep decls, ← foldl_append]
  rfl

theorem keeps_ofDecls (decls : List ExternDecl) : Keeps (ExternDecl.passes decls) (ofDecls decls) :=
  ofDecls_eq_foldl decls ▸ keeps_foldl _ (ExternDecl.pairwise_passes decls)

/-- What a model and the warnings about it make of a corpus. -/
structure Accounts (decls : List ExternDecl) (m : ExternModel) (ds : List Diagnostic) : Prop where
  /-- Each declaration other than a namespace is in the model, or it has a warning of its own. -/
  parts : ∃ reports : List (ExternRecord × Diagnostic), ds = reports.map (·.2) ∧
    (m.records ++ reports.map (·.1)).Perm (ExternDecl.records decls) ∧ ∀ p ∈ reports, m.Reports p.1 p.2
  count : decls.length = (namespacesOf decls).length + m.size + ds.length
  members : ∀ c ∈ m.classes, c.members.Pairwise fun a b => ¬ (a.name = b.name ∧ a.isStatic = b.isStatic)
  owners : ∀ c ∈ m.classes, ∀ e ∈ c.members, e.owner = c.name
  names : (m.topLevel.map Entry.name ++ m.classes.map ExternClass.name).Nodup
  /-- What is recorded under a key is the first declaration of the corpus that has it. -/
  first : ∀ r ∈ m.records, ∃ d,
    decls.find? (fun d => (d.record? decls).any fun x => x.key == r.key) = some d ∧ d.record? decls = some r

theorem Keeps.nodup_names {rs : List ExternRecord} {s : ExternModel × List Diagnostic} (keeps : Keeps rs s) :
    (s.1.topLevel.map Entry.name ++ s.1.classes.map ExternClass.name).Nodup := by
  obtain ⟨types, top, _⟩ := keeps.filed.nodup_parts
  refine nodup_append.mpr ⟨top, types, ?_⟩
  rintro name inside _ taken rfl
  obtain ⟨e, there, named⟩ := mem_map.mp inside
  obtain ⟨c, held, same⟩ := mem_map.mp taken
  exact keeps.apart name (mem_keys_type.mpr ⟨c, held, same⟩) (keeps.filed.mem_keys_top.mpr ⟨e, there, named⟩)

/-- Nothing in a corpus is lost without a warning, and nothing is recorded twice. -/
theorem ofDecls_accounts (decls : List ExternDecl) : Accounts decls (ofDecls decls).1 (ofDecls decls).2 := by
  have keeps := keeps_ofDecls decls
  obtain ⟨reports, warnings, all, reasons⟩ := keeps.parts
  have all := all.trans (ExternDecl.perm_passes decls)
  refine ⟨⟨reports, warnings, all, reasons⟩, ?_, ?_, ?_, keeps.nodup_names, ?_⟩
  · have total := all.length_eq
    rw [List.length_append, List.length_map] at total
    rw [ExternDecl.length_eq, size_eq_length_records, warnings, List.length_map]
    omega
  · exact fun c held => keeps.filed.distinct_members held
  · exact fun c held e inside => (keeps.filed.inside c held e inside).2
  · intro r recorded
    have found := keeps.first r recorded
    rw [ExternDecl.find?_passes, ExternDecl.records, List.find?_filterMap] at found
    exact Option.bind_eq_some_iff.mp found

end ExternModel

end ScriptBuild
