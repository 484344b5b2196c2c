import ScriptBuild.Proofs.ValidWorkspace

/-! Files that come and go. -/

namespace ScriptBuild

open Path List

namespace Disk

theorem lookup_setEntry (k : Text) (e : DiskEntry) (entries : List (Text × DiskEntry)) (x : Text) :
    (setEntry k e entries).lookup x = if x = k then some e else entries.lookup x := by
  induction entries with
  | nil =>
    by_cases here : x = k
    · simp [setEntry, here]
    · simp [setEntry, here]
  | cons entry rest ih =>
    obtain ⟨k', e'⟩ := entry
    unfold setEntry
    by_cases same : k' = k
    · subst same
      by_cases here : x = k'
      · simp [here]
      · simp [here, lookup_cons, beq_eq_false_iff_ne.mpr here]
    · rw [if_neg (by simpa using same), lookup_cons, lookup_cons, ih]
      by_cases first : x = k'
      · simp [first, same]
      · simp [beq_eq_false_iff_ne.mpr first]

theorem read_eq_find? (d : Disk) (path : Text) : d.read path =
      if d.isFaulty .open path then .error (.injected .open)
      else if d.isFaulty .gone path then .error (.missing "open" path)
      else
        match d.find? path with
        | some e =>
          if d.onHost && e.isDirectory then .error (.isDirectory "read" path) else .ok e.content
        | none => .error (d.absence "open" path) := by
  unfold read openEntry
  cases d.isFaulty .open path <;> cases d.isFaulty .gone path <;> cases d.find? path <;> rfl

theorem mem_contents_of_read {d : Disk} {path content : Text} (read : d.read path = .ok content) :
    content ∈ d.entries.map (·.2.content) := by
  rw [read_eq_find?] at read
  split at read
  · cases read
  · split at read
    · cases read
    · split at read
      · rename_i e found
        split at read
        · cases read
        · injection read with same
          obtain ⟨front, back, entries, _⟩ := lookup_eq_some_iff.mp found
          rw [entries, ← same]
          simp
      · cases read

/-- A later disk with the same kinds of entries at the same places. Where nothing was touched they
have the same content. -/
structure SameShape (touched : Text → Prop) (d later : Disk) : Prop where
  onHost : later.onHost = d.onHost
  workingDirectory : later.workingDirectory = d.workingDirectory
  faults : later.faults = d.faults
  kinds : ∀ k, (later.entries.lookup k).map (·.isDirectory) = (d.entries.lookup k).map (·.isDirectory)
  content : ∀ k, ¬ touched k → (later.entries.lookup k).map (·.content) = (d.entries.lookup k).map (·.content)

namespace SameShape

variable {touched : Text → Prop} {d later : Disk} (same : d.SameShape touched later)

include same

theorem key (path : Text) : later.key path = d.key path := by
  simp [Disk.key, same.onHost, same.workingDirectory]

theorem absolute (path : Text) : later.absolute path = d.absolute path := by
  simp [Disk.absolute, same.workingDirectory]

theorem isFaulty (call : DiskCall) (path : Text) : later.isFaulty call path = d.isFaulty call path := by
  simp [Disk.isFaulty, same.faults]

theorem find?_cases (path : Text) : (later.find? path = none ∧ d.find? path = none) ∨
    ∃ e e', later.find? path = some e' ∧ d.find? path = some e ∧ e'.isDirectory = e.isDirectory ∧
      (¬ touched (d.key path) → e'.content = e.content) := by
  have kind := same.kinds (d.key path)
  have content := same.content (d.key path)
  rw [find?, find?, same.key]
  cases new : later.entries.lookup (d.key path) <;> cases old : d.entries.lookup (d.key path) <;>
    rw [new, old] at kind content
  · exact .inl ⟨rfl, rfl⟩
  · cases kind
  · cases kind
  · exact .inr ⟨_, _, rfl, rfl, Option.some.inj kind, fun kept => Option.some.inj (content kept)⟩

theorem fileAbove? (fuel : Nat) (path : Text) : fileAbove? fuel later path = fileAbove? fuel d path := by
  induction fuel generalizing path with
  | zero => rfl
  | succ fuel ih =>
    unfold Disk.fileAbove?
    rcases same.find?_cases (dir path) with ⟨new, old⟩ | ⟨e, e', new, old, kind, _⟩
    · simp [new, old, ih]
    · simp [new, old, kind]

theorem absence (operation path : Text) : later.absence operation path = d.absence operation path := by
  simp [Disk.absence, same.onHost, same.fileAbove?, same.key]

theorem isOk_stat (path : Text) : (later.stat path).isOk = (d.stat path).isOk := by
  unfold stat
  rw [same.isFaulty]
  split
  · rfl
  · rcases same.find?_cases path with ⟨new, old⟩ | ⟨e, e', new, old, _, _⟩ <;> rw [new, old] <;> rfl

/-- A file reads as before, or there is content before and after. -/
theorem alike_read (path : Text) : Alike (d.read path) (later.read path) := by
  rw [read_eq_find?, read_eq_find?, same.isFaulty, same.isFaulty, same.absence, same.onHost]
  split
  · exact .inl rfl
  · split
    · exact .inl rfl
    · rcases same.find?_cases path with ⟨new, old⟩ | ⟨e, e', new, old, kind, _⟩ <;> rw [new, old]
      · exact .inl rfl
      · dsimp only
        rw [kind]
        split
        · exact .inl rfl
        · exact .inr ⟨rfl, rfl⟩

theorem read_eq {path : Text} (untouched : ¬ touched (d.key path)) : later.read path = d.read path := by
  rw [read_eq_find?, read_eq_find?, same.isFaulty, same.isFaulty, same.absence, same.onHost]
  rcases same.find?_cases path with ⟨new, old⟩ | ⟨e, e', new, old, kind, content⟩
  · rw [new, old]
  · rw [new, old]
    dsimp only
    rw [kind, content untouched]

theorem sameFiles (working : isAbsolute d.workingDirectory) (projects : List ProjectConfig) :
    d.SameFiles projects touched later := by
  refine ⟨same.absolute, fun q => same.isFaulty .hold q, fun q _ => same.isOk_stat q,
    fun q _ => same.alike_read _, fun q _ untouched => same.read_eq ?_⟩
  rwa [d.key_absolute working]

end SameShape

section PutContent

variable {d : Disk} {path : Text} {file directory : DiskEntry} (found : d.find? path = some file)
  (plain : file.isDirectory = false)
  (parent : d.entries.lookup (d.parentKey (d.key path)) = some directory)
  (above : directory.isDirectory)

include parent

/-- Content that is put into a directory is noted there. -/
theorem putContent_eq (apart : d.parentKey (d.key path) ≠ d.key path) (content : Text) : d.putContent path content =
      (d.set (d.key path) { content, names := (d.find? path).bind (·.names) }).set (d.parentKey (d.key path))
        (directory.addName (base (d.key path))) := by
  rw [putContent, place, register]
  generalize (d.find? path).bind (·.names) = names
  have still : (d.set (d.key path) { content, names }).entries.lookup (d.parentKey (d.key path)) = some directory := by
    rw [set, lookup_setEntry, if_neg apart, parent]
  rw [show (d.set (d.key path) { content, names }).parentKey (d.key path) = d.parentKey (d.key path) from rfl, still]

include found plain above

theorem sameShape_putContent (content : Text) : d.SameShape (· = d.key path) (d.putContent path content) := by
  have here : d.entries.lookup (d.key path) = some file := found
  have apart : d.parentKey (d.key path) ≠ d.key path := by
    intro same
    rw [same, here] at parent
    rw [← Option.some.inj parent, plain] at above
    cases above
  rw [putContent_eq parent apart]
  refine ⟨rfl, rfl, rfl, fun k => ?_, fun k untouched => ?_⟩
  · simp only [set, lookup_setEntry]
    split
    · rename_i same
      rw [same, parent]
      simp only [Option.map_some, above]
      rfl
    · split
      · rename_i same
        rw [same, here, found]
        rfl
      · rfl
  · simp only [set, lookup_setEntry]
    split
    · rename_i same
      rw [same, parent]
      rfl
    · rfl

end PutContent

/-- A disk without files to wait for suits whatever its entries hold. -/
theorem suits_of_entries {d : Disk} (free : ∀ q, d.isHeld q = false) (projects : List ProjectConfig)
    {contents : Text → Prop} (held : ∀ x ∈ d.entries.map (·.2.content), contents x) :
    d.Suits projects contents :=
  ⟨free, fun _ _ _ read => held _ (mem_contents_of_read read)⟩

end Disk

namespace Disk

variable {d later : Disk} {path q : Text}

theorem lookup_filter_ne (k x : Text) (entries : List (Text × DiskEntry)) :
    (entries.filter fun (k', _) => k' != k).lookup x = if x = k then none else entries.lookup x := by
  induction entries with
  | nil => simp
  | cons entry rest ih =>
    obtain ⟨k', e⟩ := entry
    by_cases same : k' = k
    · rw [filter_cons_of_neg (by simp [same]), ih]
      by_cases here : x = k
      · simp [here]
      · simp [lookup_cons, same, beq_eq_false_iff_ne.mpr here]
    · rw [filter_cons_of_pos (by simp [same]), lookup_cons, lookup_cons, ih]
      by_cases first : x = k'
      · simp [first, same]
      · simp [beq_eq_false_iff_ne.mpr first]

theorem isOk_stat_iff (d : Disk) (q : Text) : (d.stat q).isOk ↔ d.isFaulty .stat q = false ∧ (d.find? q).isSome := by
  unfold stat
  cases d.isFaulty .stat q <;> cases d.find? q <;> simp [Except.isOk, Except.toBool]

/-- Two disks with the same files, apart from the one at a path that the second of them has not. -/
structure Lacks (path : Text) (d later : Disk) : Prop where
  absolute : ∀ q, later.absolute q = d.absolute q
  stat : ∀ q, isAbsolute q → d.absolute q ≠ path → (later.stat q).isOk = (d.stat q).isOk
  absent : ∀ q, isAbsolute q → d.absolute q = path → (later.stat q).isOk = false

section

variable (d : Disk) (path : Text)

theorem isSome_lookup_unregister (k x : Text) :
    ((d.unregister k).entries.lookup x).isSome = (d.entries.lookup x).isSome := by
  unfold unregister
  dsimp only
  split
  · rename_i e found
    rw [set, lookup_setEntry]
    split
    · rename_i here
      rw [here, found]
      rfl
    · rfl
  · rfl

theorem isSome_find?_erase (q : Text) :
    ((d.erase path).find? q).isSome = (!decide (d.key q = d.key path) && (d.find? q).isSome) := by
  have keys : (d.erase path).key q = d.key q := by
    unfold erase unregister
    dsimp only
    split <;> rfl
  rw [find?, keys, erase, delete, lookup_filter_ne]
  split
  · rename_i here
    simp [here]
  · rename_i other
    rw [isSome_lookup_unregister]
    simp [other, find?]

theorem isFaulty_erase (call : DiskCall) (q : Text) : (d.erase path).isFaulty call q = d.isFaulty call q := by
  unfold erase unregister
  dsimp only
  split <;> rfl

theorem absolute_erase (q : Text) : (d.erase path).absolute q = d.absolute q := by
  unfold erase unregister
  dsimp only
  split <;> rfl

theorem lacks_erase {path : Text} (rooted : isAbsolute path) : d.Lacks (d.absolute path) (d.erase path) := by
  have keys : ∀ q, isAbsolute q → (d.key q = d.key path ↔ d.absolute q = d.absolute path) := by
    intro q other
    rw [d.key_of_isAbsolute other, d.key_of_isAbsolute rooted, d.absolute_of_isAbsolute other,
      d.absolute_of_isAbsolute rooted]
  refine ⟨d.absolute_erase path, fun q other elsewhere => ?_, fun q other here => ?_⟩
  · rw [Bool.eq_iff_iff, isOk_stat_iff, isOk_stat_iff, isFaulty_erase, isSome_find?_erase]
    simp [mt (keys q other).mp elsewhere]
  · rw [← Bool.not_eq_true, isOk_stat_iff, isSome_find?_erase]
    simp [(keys q other).mpr here]

theorem not_isOk_read_erase {path : Text} (rooted : isAbsolute path) :
    ¬ ((d.erase path).read (d.absolute path)).isOk := by
  have gone := d.isSome_find?_erase path (d.absolute path)
  have keys : d.key (d.absolute path) = d.key path := by
    rw [d.absolute_of_isAbsolute rooted, d.key_of_isAbsolute (isAbsolute_clean rooted),
      clean_clean rooted, d.key_of_isAbsolute rooted]
  rw [keys] at gone
  simp only [decide_true, Bool.not_true, Bool.false_and, Option.isSome_eq_false_iff, Option.isNone_iff_eq_none] at gone
  rw [read_eq_find?, gone]
  split
  · exact Bool.false_ne_true
  · split <;> exact Bool.false_ne_true

end

/-- A file that was put where there was none, in a directory, is the only one that was missing. -/
theorem lacks_putContent {directory : DiskEntry} (rooted : isAbsolute path) (absent : d.find? path = none)
    (parent : d.entries.lookup (d.parentKey (d.key path)) = some directory) (content : Text) :
    (d.putContent path content).Lacks (d.absolute path) d := by
  have apart : d.parentKey (d.key path) ≠ d.key path := by
    intro same
    rw [same, show d.entries.lookup (d.key path) = none from absent] at parent
    cases parent
  rw [putContent_eq parent apart]
  refine ⟨fun _ => rfl, fun q other elsewhere => ?_, fun q other here => ?_⟩
  · have key : d.key q ≠ d.key path := by
      rw [d.key_of_isAbsolute other, d.key_of_isAbsolute rooted]
      rwa [d.absolute_of_isAbsolute rooted, absolute_of_isAbsolute _ other] at elsewhere
    rw [Bool.eq_iff_iff, isOk_stat_iff, isOk_stat_iff]
    refine and_congr_right fun _ => ?_
    change _ ↔ (lookup (d.key q) (setEntry _ _ (setEntry _ _ d.entries))).isSome = true
    rw [lookup_setEntry, lookup_setEntry]
    split
    · rename_i same
      rw [find?, same, parent]
      simp
    · rfl
  · have key : d.key q = d.key path := by
      rw [d.key_of_isAbsolute other, d.key_of_isAbsolute rooted]
      rwa [d.absolute_of_isAbsolute rooted, absolute_of_isAbsolute _ other] at here
    rw [← Bool.not_eq_true, isOk_stat_iff, find?, key]
    rw [find?] at absent
    simp [absent]

end Disk

namespace ProjectConfig

variable {c : ProjectConfig} {d later : Disk} {path self : Text} {f : SourceFile}

theorem Rooted.isAbsolute (rooted : c.Rooted) {q : Text} (searched : c.Searches q) : isAbsolute q := by
  obtain ⟨root, mem, relative, rfl⟩ := searched
  exact isAbsolute_join (rooted root mem) relative

/-- A search that did not end at the path goes on as it did. -/
theorem locate_of_lacks (lacks : d.Lacks path later) {paths : List Text}
    (absolute : ∀ q ∈ paths, isAbsolute q) (elsewhere : c.locate d paths ≠ some path) :
    c.locate later paths = c.locate d paths := by
  induction paths with
  | nil => rfl
  | cons q paths ih =>
    obtain ⟨first, others⟩ := forall_mem_cons.mp absolute
    have rest := ih others
    rw [locate] at elsewhere ⊢
    rw [locate, lacks.absolute]
    by_cases here : d.absolute q = path
    · rw [lacks.absent q first here]
      split at elsewhere
      · exact absurd (congrArg some here) elsewhere
      · rename_i passed
        rw [if_neg passed]
        exact rest elsewhere
    · rw [lacks.stat q first here]
      split at elsewhere
      · rename_i taken
        rw [if_pos taken, if_pos taken]
      · rename_i passed
        rw [if_neg passed, if_neg passed]
        exact rest elsewhere

theorem find_of_lacks (rooted : c.Rooted) (lacks : d.Lacks path later) {ref : Reference}
    (elsewhere : c.find d f ref ≠ .unit path) : c.find later f ref = c.find d f ref := by
  have searched : ∀ q ∈ c.searchPaths f ref, isAbsolute q := fun q mem =>
    rooted.isAbsolute (searches_of_mem_searchPaths mem)
  rw [find_eq, find_eq, locate_of_lacks lacks searched (mt find_eq_unit_iff.mpr elsewhere)]

/-- Without a reference to the file that is missing, all of them lead where they led. -/
theorem links_of_lacks (rooted : c.Rooted) (lacks : d.Lacks path later)
    (elsewhere : ∀ ref ∈ f.references, c.find d f ref ≠ .unit path) :
    c.links later self f = c.links d self f :=
  linksFrom_congr (fun ref mem => find_of_lacks rooted lacks (elsewhere ref mem)) {}

end ProjectConfig

end ScriptBuild
