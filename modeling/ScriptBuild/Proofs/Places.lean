import ScriptBuild.Project.Config

/-! Sorted texts, dictionaries, and absolute paths as the places of a disk. -/

namespace ScriptBuild

namespace Dictionary

variable {α : Type}

theorem find?_cons (d : Dictionary α) (key x : Text) (value : α) :
    find? ((key, value) :: d) x = if x = key then some value else find? d x := by
  rw [find?, List.lookup_cons]
  by_cases same : x = key
  · simp [same]
  · simp [same, beq_eq_false_iff_ne.mpr same, find?]

theorem find?_insert (d : Dictionary α) (key x : Text) (value : α) :
    (d.insert key value).find? x = if x = key then some value else d.find? x := by
  induction d with
  | nil => exact find?_cons [] key x value
  | cons entry d ih =>
    obtain ⟨k, v⟩ := entry
    rw [insert]
    split
    · rename_i first
      obtain rfl := beq_iff_eq.mp first
      rw [find?_cons, find?_cons]
      split <;> rfl
    · rename_i other
      rw [find?_cons, ih, find?_cons]
      grind

end Dictionary

namespace Text

variable {s t : Text} {texts : List Text}

theorem ble_iff_le : ble s t ↔ s ≤ t := by
  induction s generalizing t with
  | nil => simp [ble]
  | cons a s ih =>
    cases t with
    | nil => simp [ble]
    | cons b t =>
      rw [List.cons_le_cons_iff, ble]
      grind

theorem mem_sort : s ∈ sort texts ↔ s ∈ texts := List.mem_mergeSort

theorem pairwise_sort (texts : List Text) : (sort texts).Pairwise (· ≤ ·) := by
  have transitive : ∀ a b c : Text, ble a b → ble b c → ble a c := fun a b c first second =>
    ble_iff_le.mpr (List.le_trans (ble_iff_le.mp first) (ble_iff_le.mp second))
  have total : ∀ a b : Text, (ble a b || ble b a) = true := fun a b => by
    simpa only [Bool.or_eq_true, ble_iff_le] using List.le_total a b
  exact (List.pairwise_mergeSort transitive total texts).imp ble_iff_le.mp

theorem pairwise_lt_sort (unique : texts.Nodup) : (sort texts).Pairwise (· < ·) := by
  have apart : (sort texts).Nodup := (List.mergeSort_perm texts ble).nodup_iff.mpr unique
  refine (pairwise_sort texts).imp₂ (fun a b below differ => ?_) apart
  exact List.not_le.mp fun above => differ (List.le_antisymm below above)

end Text

open List ScriptBuild.Path

variable {sep : UInt8} {s part p root path : Text}

namespace Text

theorem split_ne_nil (sep : UInt8) (s : Text) : split sep s ≠ [] := by
  cases s with
  | nil => exact cons_ne_nil _ _
  | cons b s =>
    unfold split
    split
    · exact cons_ne_nil _ _
    · split <;> exact cons_ne_nil _ _

theorem split_append (sep : UInt8) (s t : Text) : split sep (s ++ sep :: t) = split sep s ++ split sep t := by
  induction s with
  | nil => simp [split]
  | cons b s ih =>
    simp only [cons_append, split, ih]
    cases parts : split sep s with
    | nil => exact absurd parts (split_ne_nil sep s)
    | cons part rest =>
      split <;> rfl

theorem split_of_not_mem (absent : sep ∉ s) : split sep s = [s] := by
  induction s with
  | nil => rfl
  | cons b s ih =>
    rw [mem_cons, not_or] at absent
    obtain ⟨other, rest⟩ := absent
    have differs : (b == sep) = false := by simpa using Ne.symm other
    simp [split, differs, ih rest]

theorem of_mem_split (mem : part ∈ split sep s) : sep ∉ part ∧ part ⊆ s := by
  induction s generalizing part with
  | nil =>
    rw [mem_singleton.mp mem]
    exact ⟨not_mem_nil, nil_subset _⟩
  | cons b s ih =>
    unfold split at mem
    split at mem
    · rcases mem_cons.mp mem with rfl | later
      · exact ⟨not_mem_nil, nil_subset _⟩
      · exact (ih later).imp_right (subset_cons_of_subset b)
    · rename_i differs
      cases parts : split sep s with
      | nil => exact absurd parts (split_ne_nil sep s)
      | cons first rest =>
        rw [parts] at mem ih
        rcases mem_cons.mp mem with rfl | later
        · obtain ⟨plain, inside⟩ := ih mem_cons_self
          rw [mem_cons, not_or]
          exact ⟨⟨fun same => differs (by simp [same]), plain⟩, cons_subset_cons b inside⟩
        · exact (ih (mem_cons_of_mem first later)).imp_right (subset_cons_of_subset b)

theorem join_cons_cons (sep part : Text) (parts : List Text) (more : parts ≠ []) :
    join sep (part :: parts) = part ++ (sep ++ join sep parts) := by
  obtain ⟨next, others, rfl⟩ := exists_cons_of_ne_nil more
  rfl

theorem join_split (sep : UInt8) (s : Text) : join [sep] (split sep s) = s := by
  induction s with
  | nil => rfl
  | cons b s ih =>
    have more := split_ne_nil sep s
    unfold split
    split
    · rename_i same
      rw [join_cons_cons _ _ _ more, ih, eq_of_beq same]
      rfl
    · cases first : split sep s with
      | nil => exact absurd first more
      | cons part parts =>
        rw [first] at ih
        have moved : join [sep] ((b :: part) :: parts) = b :: join [sep] (part :: parts) := by
          cases parts <;> rfl
        rw [moved, ih]

/-- Parts that hold separators fall apart. -/
theorem split_join_flatMap (sep : UInt8) {parts : List Text} (filled : parts ≠ []) :
    split sep (join [sep] parts) = parts.flatMap (split sep) := by
  induction parts with
  | nil => exact absurd rfl filled
  | cons part parts ih =>
    by_cases last : parts = []
    · simp [last, join]
    · rw [join_cons_cons [sep] part parts last, singleton_append, split_append, ih last, flatMap_cons]

theorem split_join {parts : List Text} (filled : parts ≠ []) (plain : ∀ part ∈ parts, sep ∉ part) :
    split sep (join [sep] parts) = parts := by
  have each := map_congr_left fun part mem => split_of_not_mem (plain part mem)
  rw [split_join_flatMap sep filled, flatMap_def, each]
  exact flatMap_singleton' parts

end Text

namespace Path

theorem isAbsolute_append (rooted : isAbsolute p) (s : Text) : isAbsolute (p ++ s) := by
  cases p with
  | nil => cases rooted
  | cons b p => exact rooted

theorem clean_of_isAbsolute (rooted : isAbsolute p) : clean p = "/" ++ Text.join "/" (components p) := by
  simp [clean, rooted]

theorem isAbsolute_clean (rooted : isAbsolute p) : isAbsolute (clean p) := by
  rw [clean_of_isAbsolute rooted]
  exact isAbsolute_append (by decide) _

theorem join_of_isAbsolute (rooted : isAbsolute root) (relative : Text) :
    join [root, relative] = clean (root ++ ("/" ++ relative)) := by
  have filled : root.isEmpty = false := by
    cases root with
    | nil => cases rooted
    | cons b root => rfl
  simp only [join, dropWhile, filled]
  simp [Text.join]

theorem isAbsolute_join (rooted : isAbsolute root) (relative : Text) : isAbsolute (join [root, relative]) := by
  rw [join_of_isAbsolute rooted]
  exact isAbsolute_clean (isAbsolute_append rooted _)

/-- What stands between two slashes of a cleaned absolute path. -/
def IsComponent (c : Text) : Prop := c ≠ [] ∧ c ≠ "." ∧ c ≠ ".." ∧ (('/' : Char) : UInt8) ∉ c

theorem push_component {c : Text} (proper : IsComponent c) (rooted : Bool) (stack : List Text) :
    push rooted stack c = c :: stack := by
  obtain ⟨filled, dot, dots, _⟩ := proper
  simp [push, filled, dot, dots]

theorem isComponent_push {stack : List Text} (proper : ∀ c ∈ stack, IsComponent c)
    (plain : ('/' : UInt8) ∉ part) : ∀ c ∈ push true stack part, IsComponent c := by
  unfold push
  split
  · exact proper
  · rename_i kept
    split
    · cases stack with
      | nil => exact fun c mem => absurd mem not_mem_nil
      | cons top below =>
        obtain ⟨here, rest⟩ := forall_mem_cons.mp proper
        have differs : (top == "..") = false := by simpa using here.2.2.1
        simpa only [differs, Bool.false_eq_true, if_false] using rest
    · rename_i up
      refine forall_mem_cons.mpr ⟨?_, proper⟩
      simp only [Bool.or_eq_true, List.isEmpty_iff, beq_iff_eq, not_or] at kept up
      exact ⟨kept.1, kept.2, up, plain⟩

theorem isComponent_of_mem_components (rooted : isAbsolute p) : ∀ c ∈ components p, IsComponent c := by
  have folded : ∀ (parts stack : List Text), (∀ part ∈ parts, ('/' : UInt8) ∉ part) →
      (∀ c ∈ stack, IsComponent c) → ∀ c ∈ parts.foldl (push true) stack, IsComponent c := by
    intro parts
    induction parts with
    | nil => exact fun stack _ proper => proper
    | cons part parts ih =>
      intro stack plain proper
      obtain ⟨here, rest⟩ := forall_mem_cons.mp plain
      exact ih _ rest (isComponent_push proper here)
  intro c mem
  unfold components at mem
  rw [rooted] at mem
  exact folded _ [] (fun part inside => (Text.of_mem_split inside).1)
    (fun c inside => absurd inside not_mem_nil) c (mem_reverse.mp mem)

theorem components_join {cs : List Text} (proper : ∀ c ∈ cs, IsComponent c) :
    components ("/" ++ Text.join "/" cs) = cs := by
  have pushed : ∀ stack : List Text, cs.foldl (push true) stack = cs.reverse ++ stack := by
    induction cs with
    | nil => exact fun stack => rfl
    | cons c cs ih =>
      intro stack
      obtain ⟨here, rest⟩ := forall_mem_cons.mp proper
      rw [foldl_cons, push_component here, ih rest]
      simp
  have rooted : isAbsolute ("/" ++ Text.join "/" cs) := isAbsolute_append (by decide) _
  have parts : Text.split '/' ("/" ++ Text.join "/" cs) = [] :: Text.split '/' (Text.join "/" cs) :=
    Text.split_append _ [] _
  unfold components
  rw [rooted, parts, foldl_cons]
  cases cs with
  | nil => rfl
  | cons c cs =>
    rw [show (Text.join "/" (c :: cs)) = Text.join [('/' : Char)] (c :: cs) from rfl,
      Text.split_join (cons_ne_nil _ _) fun x mem => (proper x mem).2.2.2, pushed]
    simp [push]

/-- Whether a path is absolute and in its cleaned form. -/
def IsNormal (p : Text) : Prop := isAbsolute p ∧ clean p = p

theorem clean_clean (rooted : isAbsolute p) : clean (clean p) = clean p := by
  rw [clean_of_isAbsolute (isAbsolute_clean rooted), clean_of_isAbsolute rooted,
    components_join (isComponent_of_mem_components rooted)]

end Path

namespace Disk

theorem absolute_of_isAbsolute (d : Disk) (rooted : isAbsolute path) : d.absolute path = clean path := by
  simp [absolute, rooted]

theorem key_of_isAbsolute (d : Disk) (rooted : isAbsolute path) : d.key path = clean path := by
  have lead := isAbsolute_clean rooted
  unfold key
  split
  · rfl
  · dsimp only
    split
    · rename_i relative
      rcases Bool.or_eq_true_iff.mp relative with dot | dots
      · rw [beq_iff_eq.mp dot] at lead
        exact absurd lead (by decide)
      · rw [beq_iff_eq.mp dots] at lead
        exact absurd lead (by decide)
    · rfl

section

variable (d : Disk) (working : isAbsolute d.workingDirectory) (path : Text)

include working

/-- The absolute form of a path is the cleaned form of one that is absolute. -/
theorem exists_absolute_eq_clean : ∃ p, isAbsolute p ∧ d.absolute path = clean p := by
  unfold absolute
  split
  · rename_i rooted
    exact ⟨path, rooted, rfl⟩
  · refine ⟨_, ?_, join_of_isAbsolute working path⟩
    exact isAbsolute_append working _

theorem isNormal_absolute : IsNormal (d.absolute path) := by
  obtain ⟨p, rooted, same⟩ := d.exists_absolute_eq_clean working path
  rw [same]
  exact ⟨isAbsolute_clean rooted, clean_clean rooted⟩

/-- An absolute path is the key of its own entry. -/
theorem key_absolute : d.key (d.absolute path) = d.absolute path := by
  obtain ⟨p, rooted, same⟩ := d.exists_absolute_eq_clean working path
  rw [same, d.key_of_isAbsolute (isAbsolute_clean rooted), clean_clean rooted]

end

/-- What is there has an entry under its absolute path. -/
theorem mem_entries_of_stat (d : Disk) (rooted : isAbsolute path) (there : (d.stat path).isOk) :
    d.absolute path ∈ d.entries.map (·.1) := by
  rw [d.absolute_of_isAbsolute rooted, ← d.key_of_isAbsolute rooted]
  unfold stat at there
  split at there
  · cases there
  · split at there
    · rename_i e found
      obtain ⟨front, back, split, _⟩ := lookup_eq_some_iff.mp found
      rw [split]
      simp
    · cases there

end Disk

/-- Whether a project searches absolute paths only. -/
def ProjectConfig.Rooted (c : ProjectConfig) : Prop := ∀ root ∈ c.roots, Path.isAbsolute root.1

end ScriptBuild
