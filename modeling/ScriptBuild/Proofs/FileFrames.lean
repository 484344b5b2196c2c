import ScriptBuild.Proofs.FilePlaces

/-! What operations on a disk leave alone. -/

namespace ScriptBuild

open ScriptBuild.Path Text DiskEntry

namespace Disk

variable {d later last : Disk} {changed other made more : Text → Prop} {k x : Text}

def fileAt (d : Disk) (k : Text) : Option Text :=
  (d.entries.lookup k).bind fun e => if e.isDirectory then none else some e.content

def isDirectoryAt (d : Disk) (k : Text) : Bool := (d.entries.lookup k).any (·.isDirectory)

theorem fileAt_of_directory (there : d.isDirectoryAt k) : d.fileAt k = none := by
  unfold fileAt isDirectoryAt at *
  cases found : d.entries.lookup k with
  | none => rfl
  | some e => simpa [found] using there

theorem fileAt_of_absent (absent : d.entries.lookup k = none) : d.fileAt k = none := by simp [fileAt, absent]

theorem not_isDirectoryAt_of_absent (absent : d.entries.lookup k = none) : d.isDirectoryAt k = false := by
  simp [isDirectoryAt, absent]

theorem lookup_ne_none (there : d.isDirectoryAt k) : d.entries.lookup k ≠ none := fun absent => by
  rw [not_isDirectoryAt_of_absent absent] at there
  cases there

theorem lookup_eq_none (noFile : d.fileAt k = none) (noDirectory : d.isDirectoryAt k = false) :
    d.entries.lookup k = none := by
  unfold fileAt isDirectoryAt at *
  cases found : d.entries.lookup k with
  | none => rfl
  | some e =>
    have plain : e.isDirectory = false := by simpa [found] using noDirectory
    simp [found, plain] at noFile

/-- Disks that differ in the files at some places only, and in directories that were made. -/
structure SameBut (changed made : Text → Prop) (d later : Disk) : Prop where
  onHost : later.onHost = d.onHost
  workingDirectory : later.workingDirectory = d.workingDirectory
  readonly : later.readonly = d.readonly
  faults : later.faults = d.faults
  files : ∀ k, ¬ changed k → later.fileAt k = d.fileAt k
  directories : ∀ k, ¬ changed k → d.isDirectoryAt k → later.isDirectoryAt k
  added : ∀ k, ¬ changed k → later.isDirectoryAt k → d.isDirectoryAt k ∨ made k

namespace SameBut

theorem refl (d : Disk) : d.SameBut changed made d :=
  ⟨rfl, rfl, rfl, rfl, fun _ _ => rfl, fun _ _ there => there, fun _ _ there => .inl there⟩

theorem trans (first : d.SameBut changed made later) (second : later.SameBut changed made last) :
    d.SameBut changed made last where
  onHost := second.onHost.trans first.onHost
  workingDirectory := second.workingDirectory.trans first.workingDirectory
  readonly := second.readonly.trans first.readonly
  faults := second.faults.trans first.faults
  files k same := (second.files k same).trans (first.files k same)
  directories k same there := second.directories k same (first.directories k same there)
  added k same there := (second.added k same there).elim (first.added k same) .inr

variable (same : d.SameBut changed made later)

include same

theorem mono (wider : ∀ k, changed k → other k) (longer : ∀ k, made k → more k) : d.SameBut other more later where
  onHost := same.onHost
  workingDirectory := same.workingDirectory
  readonly := same.readonly
  faults := same.faults
  files k free := same.files k (mt (wider k) free)
  directories k free := same.directories k (mt (wider k) free)
  added k free there := (same.added k (mt (wider k) free) there).imp_right (longer k)

theorem key (path : Text) : later.key path = d.key path := by
  simp [Disk.key, same.onHost, same.workingDirectory]

theorem parentKey (k : Text) : later.parentKey k = d.parentKey k := same.key _

theorem isFaulty (call : DiskCall) (path : Text) : later.isFaulty call path = d.isFaulty call path := by
  simp [Disk.isFaulty, same.faults]

end SameBut

theorem lookup_set (d : Disk) (k : Text) (e : DiskEntry) (x : Text) :
    (d.set k e).entries.lookup x = if x = k then some e else d.entries.lookup x := lookup_setEntry k e d.entries x

theorem sameBut_of_lookup (lookup : ∀ x, x ≠ k → later.entries.lookup x = d.entries.lookup x)
    (onHost : later.onHost = d.onHost) (workingDirectory : later.workingDirectory = d.workingDirectory)
    (readonly : later.readonly = d.readonly) (faults : later.faults = d.faults) :
    d.SameBut (· = k) (fun _ => False) later where
  onHost := onHost
  workingDirectory := workingDirectory
  readonly := readonly
  faults := faults
  files x other := by rw [fileAt, lookup x other, fileAt]
  directories x other there := by rwa [isDirectoryAt, lookup x other]
  added x other there := by
    rw [isDirectoryAt, lookup x other] at there
    exact .inl there

theorem sameBut_set (d : Disk) (k : Text) (e : DiskEntry) : d.SameBut (· = k) (fun _ => False) (d.set k e) :=
  sameBut_of_lookup (fun x other => by rw [lookup_set, if_neg other]) rfl rfl rfl rfl

/-- A directory in the place of another, or of nothing. -/
theorem sameBut_set_directory {e : DiskEntry} (directory : e.isDirectory) (noFile : d.fileAt k = none) :
    d.SameBut (fun _ => False) (fun x => x = k ∧ d.entries.lookup k = none) (d.set k e) := by
  have same := sameBut_set d k e
  have here : (d.set k e).isDirectoryAt k := by simp [isDirectoryAt, lookup_set, directory]
  refine ⟨rfl, rfl, rfl, rfl, ?_, ?_, ?_⟩
  · intro x _
    by_cases own : x = k
    · rw [own, noFile, fileAt_of_directory here]
    · exact same.files x own
  · intro x _ there
    by_cases own : x = k
    · rwa [own]
    · exact same.directories x own there
  · intro x _ there
    by_cases own : x = k
    · by_cases before : d.isDirectoryAt k
      · exact .inl (own ▸ before)
      · exact .inr ⟨own, lookup_eq_none noFile (by simpa using before)⟩
    · exact (same.added x own there).imp_right False.elim

/-- Whether a directory can be at a place: one is there, or nothing is there and there is room above. -/
inductive HasRoom (d : Disk) : Text → Prop where
  | there {k : Text} (directory : d.isDirectoryAt k) : HasRoom d k
  | above {k : Text} (absent : d.entries.lookup k = none) (room : HasRoom d (d.parentKey k)) : HasRoom d k

/-- The places that are missing on the way up from a place. -/
inductive Missing (d : Disk) : Text → Text → Prop where
  | here {k : Text} (absent : d.entries.lookup k = none) : Missing d k k
  | above {k x : Text} (absent : d.entries.lookup k = none) (missing : Missing d (d.parentKey k) x) : Missing d k x

theorem HasRoom.fileAt_eq (room : d.HasRoom k) : d.fileAt k = none := by
  cases room with
  | there directory => exact fileAt_of_directory directory
  | above absent _ => exact fileAt_of_absent absent

theorem HasRoom.isDirectory {e : DiskEntry} (room : d.HasRoom k) (found : d.entries.lookup k = some e) :
    e.isDirectory := by
  cases room with
  | there directory => simpa [isDirectoryAt, found] using directory
  | above absent _ => cases found.symm.trans absent

theorem HasRoom.parent (room : d.HasRoom k) (absent : d.entries.lookup k = none) : d.HasRoom (d.parentKey k) := by
  cases room with
  | there directory => exact absurd absent (lookup_ne_none directory)
  | above _ room => exact room

theorem HasRoom.mono (same : d.SameBut (fun _ => False) made later) (room : d.HasRoom k) : later.HasRoom k := by
  induction room with
  | there directory => exact .there (same.directories _ not_false directory)
  | above absent _ ih =>
    rename_i k _
    by_cases there : later.isDirectoryAt k
    · exact .there there
    · refine .above (lookup_eq_none ?_ (by simpa using there)) (same.parentKey k ▸ ih)
      rw [same.files k not_false, fileAt_of_absent absent]

section

variable (missing : d.Missing k x)

include missing

theorem Missing.absent : d.entries.lookup k = none := by
  cases missing with
  | here absent | above absent => exact absent

theorem Missing.absent_end : d.entries.lookup x = none := by
  induction missing with
  | here absent => exact absent
  | above _ _ ih => exact ih

theorem Missing.further (absent : d.entries.lookup (d.parentKey x) = none) : d.Missing k (d.parentKey x) := by
  induction missing with
  | here gone => exact .above gone (.here absent)
  | above gone _ ih => exact .above gone (ih absent)

theorem Missing.eq_or_above : k = x ∨ d.Missing (d.parentKey k) x := by
  cases missing with
  | here _ => exact .inl rfl
  | above _ rest => exact .inr rest

end

/-- The way up from a place with room does not come back to it. -/
theorem HasRoom.not_missing (room : d.HasRoom k) : ¬ d.Missing (d.parentKey k) k := by
  induction room with
  | there directory => exact fun missing => lookup_ne_none directory missing.absent_end
  | above absent room ih =>
    intro missing
    rcases missing.eq_or_above with same | rest
    · apply ih
      rw [same]
      exact missing
    · exact ih (rest.further missing.absent)

theorem SameBut.kind (same : d.SameBut changed made later) (apart : ¬ changed k) (lasting : ¬ made k) :
    later.isDirectoryAt k = d.isDirectoryAt k :=
  Bool.eq_iff_iff.mpr ⟨fun there => (same.added k apart there).resolve_right lasting, same.directories k apart⟩

theorem SameBut.absent (same : d.SameBut (fun _ => False) made later) (absent : later.entries.lookup k = none) :
    d.entries.lookup k = none := by
  apply lookup_eq_none
  · rw [← same.files k not_false, fileAt_of_absent absent]
  · by_contra there
    exact lookup_ne_none (same.directories k not_false (by simpa using there)) absent

theorem Missing.of_sameBut (same : d.SameBut (fun _ => False) made later) (missing : later.Missing k x) :
    d.Missing k x := by
  induction missing with
  | here absent => exact .here (same.absent absent)
  | above absent _ ih => exact .above (same.absent absent) (same.parentKey _ ▸ ih)

/-- Where there is room above a place, entering it into its directory makes the directories that are missing. -/
theorem sameBut_register (fuel : Nat) : ∀ {d : Disk} {k : Text}, d.HasRoom (d.parentKey k) →
      d.SameBut (fun _ => False) (d.Missing (d.parentKey k)) (register fuel d k) := by
  induction fuel with
  | zero => exact fun _ => .refl _
  | succ fuel ih =>
    intro d k room
    have noFile := room.fileAt_eq
    rw [register]
    cases found : d.entries.lookup (d.parentKey k) with
    | some e =>
      refine (sameBut_set_directory rfl noFile).mono (fun _ => id) ?_
      rintro x ⟨_, absent⟩
      rw [found] at absent
      cases absent
    | none =>
      have first : d.SameBut (fun _ => False) (d.Missing (d.parentKey k)) (d.set (d.parentKey k) .directory) := by
        refine (sameBut_set_directory rfl noFile).mono (fun _ => id) ?_
        rintro x ⟨rfl, absent⟩
        exact .here absent
      have above := ih ((room.parent found).mono first)
      have second := first.trans
        (above.mono (fun _ => id) fun x missing => Missing.above found (missing.of_sameBut first))
      have made : (register fuel (d.set (d.parentKey k) .directory) (d.parentKey k)).isDirectoryAt (d.parentKey k) := by
        apply above.directories _ not_false
        simp [isDirectoryAt, lookup_set, directory, isDirectory]
      refine second.trans ((sameBut_set_directory rfl (fileAt_of_directory made)).mono (fun _ => id) ?_)
      exact fun x absent => absurd absent.2 (lookup_ne_none made)

theorem sameBut_place (d : Disk) (path : Text) {e : DiskEntry} (plain : e.isDirectory = false)
    (parent : d.isDirectoryAt (d.parentKey (d.key path))) (apart : d.parentKey (d.key path) ≠ d.key path) :
    d.SameBut (· = d.key path) (fun _ => False) (d.place path e) ∧
      (d.place path e).fileAt (d.key path) = some e.content := by
  have first := sameBut_set d (d.key path) e
  have directory := first.directories _ apart parent
  have second := sameBut_register ((d.key path).length + 1)
    (.there directory)
  refine ⟨first.trans (second.mono (fun _ => False.elim) ?_), ?_⟩
  · exact fun x missing => absurd missing.absent (lookup_ne_none directory)
  · rw [place, second.files _ not_false, fileAt, lookup_set]
    simp [plain]

/-- Where there is room, a directory is made with those above it that are missing. -/
theorem sameBut_place_directory {path : Text} (absent : d.entries.lookup (d.key path) = none)
    (room : d.HasRoom (d.parentKey (d.key path))) :
    d.SameBut (fun _ => False) (d.Missing (d.key path)) (d.place path .directory) ∧
      (d.place path .directory).isDirectoryAt (d.key path) := by
  have first : d.SameBut (fun _ => False) (d.Missing (d.key path)) (d.set (d.key path) .directory) := by
    refine (sameBut_set_directory rfl (fileAt_of_absent absent)).mono (fun _ => id) ?_
    rintro x ⟨rfl, _⟩
    exact .here absent
  have second := sameBut_register ((d.key path).length + 1)
    (room.mono first)
  refine ⟨first.trans (second.mono (fun _ => id) fun x missing => .above absent (missing.of_sameBut first)), ?_⟩
  apply second.directories _ not_false
  simp [isDirectoryAt, lookup_set, directory, isDirectory]

theorem sameBut_erase (d : Disk) (path : Text) :
    d.SameBut (· = d.key path) (fun _ => False) (d.erase path) ∧ (d.erase path).entries.lookup (d.key path) = none := by
  have names : ∀ (e : DiskEntry) (name : Text), (e.removeName name).isDirectory = e.isDirectory ∧
      (e.removeName name).content = e.content := by
    simp [removeName, isDirectory]
  have first : d.SameBut (· = d.key path) (fun _ => False) (d.unregister (d.key path)) := by
    unfold unregister
    dsimp only
    cases found : d.entries.lookup (d.parentKey (d.key path)) with
    | none => exact .refl d
    | some e =>
      have same : ∀ x, (d.set (d.parentKey (d.key path)) (e.removeName (base (d.key path)))).fileAt x = d.fileAt x ∧
          (d.set (d.parentKey (d.key path)) (e.removeName (base (d.key path)))).isDirectoryAt x =
            d.isDirectoryAt x := by
        intro x
        by_cases own : x = d.parentKey (d.key path)
        · subst own
          simp [fileAt, isDirectoryAt, lookup_set, found, names]
        · simp [fileAt, isDirectoryAt, lookup_set, own]
      exact ⟨rfl, rfl, rfl, rfl, fun x _ => (same x).1, fun x _ there => (same x).2 ▸ there,
        fun x _ there => .inl ((same x).2 ▸ there)⟩
  have gone : ∀ (d : Disk) (k x : Text), (d.delete k).entries.lookup x = if x = k then none else d.entries.lookup x :=
    fun d k x => lookup_filter_ne k x d.entries
  refine ⟨first.trans (sameBut_of_lookup (fun x other => ?_) rfl rfl rfl rfl), ?_⟩
  · rw [erase, gone, if_neg other]
  · rw [erase, gone, if_pos rfl]

/-- What holds of every file tree: its root is a directory, and on the host so are the working directory and what
is above a directory. -/
structure IsGrounded (d : Disk) : Prop where
  root : d.isDirectoryAt "/"
  working : d.onHost → Path.isAbsolute d.workingDirectory
  home : d.onHost → d.isDirectoryAt (d.key ".")
  above : d.onHost → ∀ k, d.isDirectoryAt k → d.isDirectoryAt (d.parentKey k)

namespace IsGrounded

variable (grounded : d.IsGrounded) (host : d.onHost)

include grounded host

/-- On the host every directory on the way from the root to the working directory is there. -/
theorem ancestor (rest : List Text) :
    ∀ cs, components d.workingDirectory = cs ++ rest → d.isDirectoryAt ("/" ++ join "/" cs) := by
  have lead := grounded.working host
  have filled := ne_nil_of_isAbsolute lead
  induction rest with
  | nil =>
    intro cs parts
    have home := grounded.home host
    have own : components (d.workingDirectory ++ ("/" ++ ".")) = cs := by
      rw [components_append _ _ filled, ← List.append_nil cs, ← parts]
      exact List.reverse_reverse _
    rwa [key_of_relative d host lead rfl, clean_of_isAbsolute (by rw [isAbsolute_child filled, lead]), own]
      at home
  | cons c rest ih =>
    intro cs parts
    have proper : ∀ x ∈ cs ++ [c], IsComponent x := fun x mem =>
      isComponent_of_mem_components lead x (by rw [parts]; simp at mem ⊢; tauto)
    have named : IsComponent c := proper c (by simp)
    have filled : ("/" : Text) ++ join "/" cs ≠ [] := List.cons_ne_nil _ _
    have below := grounded.above host _ (ih (cs ++ [c]) (by simp [parts]))
    have place : d.key (join [("/" : Text) ++ join "/" cs, c]) = "/" ++ join "/" (cs ++ [c]) := by
      have rooted : isAbsolute (("/" : Text) ++ join "/" cs ++ ("/" ++ c)) := rfl
      rw [join_of_ne_nil filled, d.key_of_isAbsolute (by rw [isAbsolute_clean_eq, rooted]),
        clean_clean_eq, clean_of_isAbsolute rooted, components_child filled named,
        components_join fun x mem => proper x (List.mem_append_left _ mem)]
    rwa [← place, parentKey_key_join d grounded.working filled named, d.key_of_isAbsolute rfl,
      clean_of_isAbsolute rfl, components_join fun x mem => proper x (List.mem_append_left _ mem)] at below

/-- On the host a path without a name at its end stands for a directory. -/
theorem nameless {p : Text} (normal : clean p = p) (unnamed : ¬ IsComponent (base p)) :
    d.isDirectoryAt (d.key p) := by
  rcases upwards_of_nameless normal unnamed with rfl | ⟨relative, upwards⟩
  · rw [d.key_of_isAbsolute rfl]
    exact grounded.root
  · have lead := grounded.working host
    have filled := ne_nil_of_isAbsolute lead
    have plain : ∀ c ∈ (components d.workingDirectory).reverse, c ≠ ".." := fun c mem =>
      (isComponent_of_mem_components lead c (List.mem_reverse.mp mem)).2.2.1
    obtain ⟨n, same⟩ := foldl_push_upwards _ upwards _ plain
    have parts : components (d.workingDirectory ++ ("/" ++ p)) =
        (components d.workingDirectory).take ((components d.workingDirectory).length - n) := by
      have own : components p = ((split '/' p).foldl (push false) []).reverse := by
        rw [components, relative]
      rw [components_append _ _ filled, lead, ← foldl_push_settled, ← own, same, List.drop_reverse,
        List.reverse_reverse]
    rw [key_of_relative d host lead relative, clean_of_isAbsolute (by rw [isAbsolute_child filled, lead]), parts]
    exact grounded.ancestor host _ _ (List.take_append_drop _ _).symm

theorem named_of_absent {p : Text} (normal : clean p = p) (absent : d.entries.lookup (d.key p) = none) :
    IsComponent (base p) := by
  by_contra unnamed
  exact lookup_ne_none (grounded.nameless host normal unnamed) absent

end IsGrounded

/-- On the host a file stands above a path, if one does, where a directory would have to be. -/
theorem fileAbove?_eq_none_iff (grounded : d.IsGrounded) (host : d.onHost) (fuel : Nat) :
    ∀ {p : Text}, clean p = p → IsComponent (base p) → p.length ≤ fuel →
      (fileAbove? fuel d p = none ↔ d.HasRoom (d.parentKey (d.key p))) := by
  induction fuel with
  | zero =>
    intro p normal named short
    rw [List.length_eq_zero_iff.mp (Nat.le_zero.mp short)] at normal
    exact absurd normal (clean_ne_nil [])
  | succ fuel ih =>
    intro p normal named short
    obtain ⟨other, shorter⟩ := dir_of_named normal named
    rw [parentKey_key d grounded.working normal fun _ => named, fileAbove?]
    rw [if_neg (by simpa using other), find?]
    cases found : d.entries.lookup (d.key (dir p)) with
    | some e =>
      have there : d.HasRoom (d.key (dir p)) ↔ e.isDirectory :=
        ⟨fun room => room.isDirectory found, fun directory => .there (by simpa [isDirectoryAt, found] using directory)⟩
      rw [there]
      by_cases directory : e.isDirectory <;> simp [directory]
    | none =>
      have above := grounded.named_of_absent host (clean_dir p) found
      have below := shorter above
      rw [ih (clean_dir p) above (by omega)]
      exact ⟨.above found, fun room => room.parent found⟩

/-- What making a directory can do. -/
theorem makeDirectory_cases {path : Text} (done : d.makeDirectory path = .ok later) : d.readonly = false ∧
    ((∃ e, d.entries.lookup (d.key path) = some e ∧ (d.onHost → e.isDirectory) ∧ later = d) ∨
      d.entries.lookup (d.key path) = none ∧ (d.onHost → fileAbove? path.length d path = none) ∧
        later = d.place path .directory) := by
  unfold makeDirectory find? at done
  split at done
  · cases done
  rename_i writable
  refine ⟨by simpa using writable, ?_⟩
  split at done
  · cases done
  split at done
  · rename_i e found
    split at done
    · cases done
    rename_i allowed
    cases done
    exact .inl ⟨e, found, fun host => by simpa [host] using allowed, rfl⟩
  · rename_i absent
    split at done
    · cases done
    rename_i reached
    cases done
    exact .inr ⟨absent, fun host => by simpa [host] using reached, rfl⟩

theorem makeDirectory_spec (grounded : d.IsGrounded) {q : Text} (normal : clean q = q)
    (room : d.onHost = false → d.HasRoom (d.key q)) (done : d.makeDirectory q = .ok later) :
    d.HasRoom (d.key q) ∧ d.SameBut (fun _ => False) (d.Missing (d.key q)) later ∧ later.isDirectoryAt (d.key q) := by
  obtain ⟨_, ⟨e, found, allowed, rfl⟩ | ⟨absent, reached, rfl⟩⟩ := makeDirectory_cases done
  · have directory : e.isDirectory := by
      cases host : later.onHost with
      | true => exact allowed host
      | false => exact (room host).isDirectory found
    have there : later.isDirectoryAt (later.key q) := by simpa [isDirectoryAt, found] using directory
    exact ⟨.there there, .refl later, there⟩
  · have above : d.HasRoom (d.parentKey (d.key q)) := by
      cases host : d.onHost with
      | true =>
        have named := grounded.named_of_absent host normal absent
        exact (fileAbove?_eq_none_iff grounded host q.length normal named (Nat.le_refl _)).mp (reached host)
      | false => exact (room host).parent absent
    exact ⟨.above absent above, sameBut_place_directory absent above⟩

theorem exists_makeDirectory (grounded : d.IsGrounded) {q : Text} (normal : clean q = q)
    (room : d.HasRoom (d.key q)) (writable : d.readonly = false) (able : d.isFaulty .mkdir q = false) :
    ∃ made, d.makeDirectory q = .ok made := by
  unfold makeDirectory
  rw [writable, able]
  cases found : d.find? q with
  | some e => simp [room.isDirectory found]
  | none =>
    have absent : d.entries.lookup (d.key q) = none := found
    cases host : d.onHost with
    | false => simp
    | true =>
      have above : fileAbove? q.length d q = none := by
        rw [fileAbove?_eq_none_iff grounded host q.length normal (grounded.named_of_absent host normal absent) (Nat.le_refl _)]
        exact room.parent absent
      simp [above]

/-- A temporary file in the directory `q`: it has a name of its own, longer than `bound`, and it is empty. -/
structure Opened (q : Text) (bound : Nat) (path : Text) (d opened : Disk) : Prop where
  named : ∃ c, Path.IsComponent c ∧ bound < c.length ∧ path = Path.join [q, c]
  fresh : d.entries.lookup (d.key path) = none
  same : d.SameBut (· = d.key path) (fun _ => False) opened
  empty : opened.fileAt (d.key path) = some []

def Names (q lead : Text) (bound : Nat) : Prop :=
  ∀ n, ∃ c, Path.IsComponent c ∧ bound < c.length ∧ Path.join [q, lead ++ Text.ofNat n] = Path.join [q, c]

variable {q lead path : Text} {bound : Nat}

theorem sameBut_count (d : Disk) (n : Nat) : d.SameBut changed made { d with temporaries := n } :=
  ⟨rfl, rfl, rfl, rfl, fun _ _ => rfl, fun _ _ => id, fun _ _ => .inl⟩

/-- A temporary file gets the next number, or a later one if that is taken. -/
theorem openTemporary_cases {attempts : Nat} (done : openTemporary attempts d q lead = .ok (path, later)) :
    (d.find? (join [q, lead ++ ofNat (d.temporaries + 1)]) = none ∧
      path = join [q, lead ++ ofNat (d.temporaries + 1)] ∧
      later = { d with temporaries := d.temporaries + 1 }.place path {}) ∨
    ∃ fewer, attempts = fewer + 1 ∧
      openTemporary fewer { d with temporaries := d.temporaries + 1 } q lead = .ok (path, later) := by
  unfold openTemporary at done
  dsimp only at done
  split at done
  · cases done
  split at done
  · cases done
  split at done
  · rename_i free
    injection done with same
    injection same with first second
    subst first
    exact .inl ⟨Option.isNone_iff_eq_none.mp free, rfl, second.symm⟩
  · cases attempts with
    | zero => cases done
    | succ fewer => exact .inr ⟨fewer, rfl, done⟩

theorem opened_of_free (d : Disk) (n : Nat) (working : d.IsAnchored) (filled : q ≠ [])
    (names : Names q lead bound) (directory : d.isDirectoryAt (d.key q))
    (free : d.find? (join [q, lead ++ ofNat n]) = none) :
    d.Opened q bound (join [q, lead ++ ofNat n])
      ({ d with temporaries := n }.place (join [q, lead ++ ofNat n]) {}) := by
  obtain ⟨c, proper, long, same⟩ := names n
  have fresh : d.entries.lookup (d.key (join [q, lead ++ ofNat n])) = none := free
  have parent : d.parentKey (d.key (join [q, lead ++ ofNat n])) = d.key q := by
    rw [same]
    exact parentKey_key_join d working filled proper
  have apart : d.parentKey (d.key (join [q, lead ++ ofNat n])) ≠ d.key (join [q, lead ++ ofNat n]) := by
    intro equal
    rw [← parent, equal] at directory
    exact lookup_ne_none directory fresh
  have put := sameBut_place { d with temporaries := n } (join [q, lead ++ ofNat n])
    (e := {}) rfl (parent ▸ directory) apart
  exact ⟨⟨c, proper, long, same⟩, fresh, (sameBut_count d n).trans put.1, put.2⟩

theorem opened_of_openTemporary (filled : q ≠ []) (names : Names q lead bound) (attempts : Nat) :
    ∀ {d : Disk}, d.IsAnchored → d.isDirectoryAt (d.key q) →
      openTemporary attempts d q lead = .ok (path, later) → d.Opened q bound path later := by
  induction attempts using Nat.strongRecOn with
  | ind attempts ih =>
    intro d working directory done
    rcases openTemporary_cases done with ⟨free, rfl, rfl⟩ | ⟨fewer, rfl, rest⟩
    · exact opened_of_free d _ working filled names directory free
    · obtain ⟨named, fresh, others, empty⟩ :=
        ih fewer (Nat.lt_succ_self _) (d := { d with temporaries := d.temporaries + 1 }) working directory rest
      exact ⟨named, fresh, (sameBut_count d _).trans others, empty⟩

/-- A temporary file can be made if one of the names that are tried is free. -/
theorem exists_openTemporary (attempts : Nat) : ∀ {d : Disk}, d.readonly = false → (∀ p, d.isFaulty .create p = false) →
      (∃ n, n ≤ attempts ∧ d.find? (join [q, lead ++ ofNat (d.temporaries + 1 + n)]) = none) →
      ∃ r, openTemporary attempts d q lead = .ok r := by
  induction attempts with
  | zero =>
    rintro d writable able ⟨n, few, free⟩
    rw [Nat.le_zero.mp few] at free
    rw [openTemporary, if_neg (by simp [writable]), if_neg (by exact ne_true_of_eq_false (able _)),
      if_pos (by exact Option.isNone_iff_eq_none.mpr free)]
    exact ⟨_, rfl⟩
  | succ attempts ih =>
    rintro d writable able ⟨n, few, free⟩
    rw [openTemporary, if_neg (by simp [writable]), if_neg (by exact ne_true_of_eq_false (able _))]
    split
    · exact ⟨_, rfl⟩
    · rename_i taken
      apply ih (d := { d with temporaries := d.temporaries + 1 }) writable able
      cases n with
      | zero => exact absurd (Option.isNone_iff_eq_none.mpr free) taken
      | succ n =>
        refine ⟨n, by omega, ?_⟩
        rw [show d.temporaries + 1 + 1 + n = d.temporaries + 1 + (n + 1) by omega]
        exact free

end Disk

end ScriptBuild
