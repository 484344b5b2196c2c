import ScriptBuild.Proofs.FileFrames

/-! Files are written as a whole. -/

namespace ScriptBuild

open ScriptBuild.Path Path

variable {lead q k : Text} {d later : Disk} {bound : Nat}

namespace Path

/-- A temporary file has a name of its own, longer than that of its destination. -/
theorem isComponent_temporary (plain : ('/' : UInt8) ∉ lead) (long : 2 ≤ lead.length) (n : Nat) :
    IsComponent (lead ++ Text.ofNat n) := by
  have digits : 0 < (Text.ofNat n).length := by simp [Text.ofNat, Nat.length_toDigits_pos]
  have size : 2 < (lead ++ Text.ofNat n).length := by rw [List.length_append]; omega
  have other : ∀ t : Text, t.length ≤ 2 → lead ++ Text.ofNat n ≠ t := by
    rintro _ short rfl
    omega
  refine ⟨other _ (by decide), other _ (by decide), other _ (by decide), ?_⟩
  rw [List.mem_append]
  exact not_or.mpr ⟨plain, Text.slash_not_mem_ofNat n⟩

theorem join_dot {c : Text} (filled : q ≠ []) : join [q, "./" ++ c] = join [q, c] := by
  rw [join_of_ne_nil filled, join_of_ne_nil filled]
  refine clean_eq (by rw [isAbsolute_child filled, isAbsolute_child filled]) ?_
  rw [components_append _ _ filled, components_append _ _ filled]
  rfl

end Path

namespace Disk

theorem names_temporary (p q : Text) (filled : q ≠ []) :
    Names q ("." ++ base p ++ ".tmp-") (base p).length := by
  intro n
  by_cases root : base p = "/"
  · refine ⟨".tmp-" ++ Text.ofNat n, isComponent_temporary (by decide) (by decide) n, ?_, ?_⟩
    · rw [root, List.length_append]
      exact Nat.lt_of_lt_of_le (by decide) (Nat.le_add_right _ _)
    · rw [root]
      exact join_dot filled
  · refine ⟨_, isComponent_temporary ?_ ?_ n, ?_, rfl⟩
    · simp only [List.mem_append, not_or]
      exact ⟨⟨by decide, slash_not_mem_base root⟩, by decide⟩
    · rw [List.length_append, show (".tmp-" : Text).length = 5 from rfl]
      omega
    · simp only [List.length_append, show (".tmp-" : Text).length = 5 from rfl]
      omega

theorem temporaries_register (fuel : Nat) : ∀ (d : Disk) (k : Text), (register fuel d k).temporaries = d.temporaries := by
  induction fuel with
  | zero => exact fun _ _ => rfl
  | succ fuel ih =>
    intro d k
    rw [register]
    split
    · rfl
    · exact ih (d.set (d.parentKey k) .directory) (d.parentKey k)

theorem temporaries_makeDirectory {made : Disk} (done : d.makeDirectory q = .ok made) :
    made.temporaries = d.temporaries := by
  obtain ⟨_, ⟨_, _, _, rfl⟩ | ⟨_, _, rfl⟩⟩ := makeDirectory_cases done
  · rfl
  · exact temporaries_register _ _ _

/-- Where a file can be: there is room for the directory that holds it, and it is not a directory itself. -/
structure TakesFile (d : Disk) (path : Text) : Prop where
  room : d.HasRoom (d.key (dir path))
  free : d.isDirectoryAt (d.key path) = false

/-- What a file in the directory `q` can be renamed to without harm to others. The host refuses a directory. -/
structure IsTarget (d : Disk) (q k : Text) : Prop where
  lasting : ¬ d.Missing (d.key q) k
  placed : d.onHost ∧ d.isDirectoryAt k ∨ d.parentKey k = d.key q ∧ d.key q ≠ k

theorem IsTarget.of_directory (host : d.onHost) (there : d.isDirectoryAt k) : d.IsTarget q k :=
  ⟨fun missing => lookup_ne_none there missing.absent_end, .inl ⟨host, there⟩⟩

theorem IsTarget.of_free (parent : d.parentKey k = d.key q) (room : d.HasRoom (d.key q))
    (free : d.isDirectoryAt k = false) : d.IsTarget q k := by
  have lasting : ¬ d.Missing (d.key q) k := by
    intro missing
    have own : d.HasRoom k := .above missing.absent_end (parent ▸ room)
    exact own.not_missing (parent ▸ missing)
  refine ⟨lasting, .inr ⟨parent, fun same => ?_⟩⟩
  rw [same] at room lasting
  cases room with
  | there directory => rw [free] at directory; cases directory
  | above absent _ => exact lasting (.here absent)

variable {p : Text}

theorem length_splitLast_key_le (working : d.IsAnchored) (normal : clean p = p)
    (named : d.onHost → IsComponent (base p)) :
    (splitLast (d.key p)).2.length ≤ (base p).length := by
  cases host : d.onHost with
  | false =>
    rw [key_of_memory d host, normal]
    split
    · exact Nat.zero_le _
    · exact length_splitLast_le p
  | true =>
    obtain ⟨front, split, _⟩ := splitLast_key_join d working (dir_ne_nil p) (named host)
    rw [join_dir_base normal (named host)] at split
    exact Nat.le_of_eq (by rw [split])

/-- The destination of a write is a directory on the host, or it can be renamed to and has a shorter name than the
temporary file. -/
theorem target_of_destination (grounded : d.IsGrounded) (root path : Text)
    (fits : d.onHost = false → d.TakesFile (join [root, path]))
    (room : d.HasRoom (d.key (dir (join [root, path])))) :
    d.IsTarget (dir (join [root, path])) (d.key (join [root, path])) ∧
      (d.isDirectoryAt (d.key (join [root, path])) ∨
        (splitLast (d.key (join [root, path]))).2.length ≤ (base (join [root, path])).length) := by
  have refused : ∀ {p}, d.isDirectoryAt (d.key p) → (d.onHost = false → d.TakesFile p) → d.onHost := by
    intro p there fits
    by_contra memory
    have free := (fits (by simpa using memory)).free
    rw [there] at free
    cases free
  rcases join_eq_nil_or_clean root path with none | normal
  · rw [none] at fits ⊢
    have there : d.isDirectoryAt (d.key []) := by
      cases host : d.onHost with
      | false => exact (by simpa [key, host, show clean [] = "." from rfl] using grounded.root)
      | true =>
        have lead := grounded.working host
        have same := clean_below (r := []) (ne_nil_of_isAbsolute lead) rfl
        rw [← key_of_relative d host lead rfl, ← key_of_relative d host lead rfl] at same
        exact same ▸ grounded.home host
    exact ⟨.of_directory (refused there fits) there, .inl there⟩
  · generalize join [root, path] = p at fits room normal ⊢
    by_cases there : d.isDirectoryAt (d.key p)
    · exact ⟨.of_directory (refused there fits) there, .inl there⟩
    · have named : d.onHost → IsComponent (base p) := by
        intro host
        by_contra unnamed
        exact there (grounded.nameless host normal unnamed)
      refine ⟨.of_free (parentKey_key d grounded.working normal named) room (by simpa using there), .inr ?_⟩
      exact length_splitLast_key_le grounded.working normal named

end Disk

namespace FileTree

open Disk

variable {made current : Disk} {temporary destination data : Text} {e : WriteError} {cancel : Cancel}

/-- A write of `data` to the place `k` that was done as a whole or not at all. -/
inductive Atomic (d : Disk) (k data : Text) : Except WriteError Unit × Disk → Prop where
  | done {later : Disk} (content : later.fileAt k = some data) (others : ∀ x, x ≠ k → later.fileAt x = d.fileAt x) :
      Atomic d k data (.ok (), later)
  | undone {e : WriteError} {later : Disk} (content : later.fileAt k = d.fileAt k)
      (kind : later.isDirectoryAt k = d.isDirectoryAt k)
      (others : ∀ x, (d.fileAt x).isSome → later.fileAt x = d.fileAt x)
      (swept : (∀ p, d.isFaulty .remove p = false) → ∀ x, later.fileAt x = d.fileAt x) :
      Atomic d k data (.error e, later)

/-- During a write a temporary file is in the directory `q`, and nothing else is new but directories. -/
structure Pending (d : Disk) (q temporary : Text) (current : Disk) : Prop where
  writable : d.readonly = false
  fresh : d.entries.lookup (d.key temporary) = none
  parent : d.parentKey (d.key temporary) = d.key q
  same : d.SameBut (· = d.key temporary) (d.Missing (d.key q)) current
  directory : current.isDirectoryAt (d.key q)
  held : (current.fileAt (d.key temporary)).isSome

namespace Pending

variable (pending : Pending d q temporary current)

include pending

theorem apart : d.key q ≠ d.key temporary := by
  intro same
  have held := pending.held
  rw [← same, fileAt_of_directory pending.directory] at held
  cases held

theorem apart_of_length (long : bound < (splitLast (d.key temporary)).2.length)
    (short : d.isDirectoryAt k ∨ (splitLast k).2.length ≤ bound) : k ≠ d.key temporary := by
  rintro rfl
  rcases short with there | short
  · exact lookup_ne_none there pending.fresh
  · omega

theorem found :
    ∃ e, current.find? temporary = some e ∧ e.names = none ∧ current.fileAt (d.key temporary) = some e.content := by
  have held := pending.held
  unfold find?
  rw [pending.same.key]
  unfold fileAt at held ⊢
  cases there : current.entries.lookup (d.key temporary) with
  | none => rw [there] at held; cases held
  | some e =>
    rw [there] at held
    by_cases directory : e.isDirectory
    · simp [directory] at held
    · exact ⟨e, rfl, by simpa [DiskEntry.isDirectory] using directory, by simp [directory]⟩

theorem put (data : Text) : Pending d q temporary (current.putContent temporary data) ∧
      (current.putContent temporary data).fileAt (d.key temporary) = some data := by
  obtain ⟨e, there, plain, _⟩ := pending.found
  have key := pending.same.key temporary
  have parent : current.parentKey (current.key temporary) = d.key q := by
    rw [key, pending.same.parentKey, pending.parent]
  have placed := sameBut_place current temporary
    (e := { content := data, names := (current.find? temporary).bind (·.names) })
    (by simp [DiskEntry.isDirectory, there, plain]) (parent ▸ pending.directory) (by rw [parent, key]; exact pending.apart)
  rw [key] at placed
  refine ⟨⟨pending.writable, pending.fresh, pending.parent, ?_, ?_, ?_⟩, placed.2⟩
  · exact pending.same.trans (placed.1.mono (fun _ => id) fun _ => False.elim)
  · exact placed.1.directories _ pending.apart pending.directory
  · exact Option.isSome_iff_exists.mpr ⟨data, placed.2⟩

theorem of_remove (removed : current.remove temporary = .ok later) :
    d.SameBut (· = d.key temporary) (d.Missing (d.key q)) later ∧ later.fileAt (d.key temporary) = none := by
  obtain ⟨file, there, _⟩ := pending.found
  unfold remove at removed
  split at removed
  · cases removed
  split at removed
  · cases removed
  rw [there] at removed
  injection removed with erased
  have gone := sameBut_erase current temporary
  rw [pending.same.key, erased] at gone
  exact ⟨pending.same.trans (gone.1.mono (fun _ => id) fun _ => False.elim), fileAt_of_absent gone.2⟩

/-- A write that is given up leaves no more than the temporary file behind. -/
theorem atomic_abandon (lasting : ¬ d.Missing (d.key q) k)
    (apart : k ≠ d.key temporary) : Atomic d k data (abandon current temporary e) := by
  have undone : ∀ {later : Disk}, d.SameBut (· = d.key temporary) (d.Missing (d.key q)) later →
      ((∀ p, d.isFaulty .remove p = false) → later.fileAt (d.key temporary) = none) →
      Atomic d k data (.error e, later) := by
    intro later same swept
    refine .undone (same.files k apart) (same.kind apart lasting) ?_ ?_
    · intro x file
      refine same.files x ?_
      rintro rfl
      rw [fileAt_of_absent pending.fresh] at file
      cases file
    · intro able x
      by_cases own : x = d.key temporary
      · rw [own, swept able, fileAt_of_absent pending.fresh]
      · exact same.files x own
  unfold abandon
  cases removed : current.remove temporary with
  | error failure =>
    refine undone pending.same fun able => ?_
    obtain ⟨file, there, _⟩ := pending.found
    rw [remove, pending.same.readonly, pending.writable, pending.same.isFaulty, able, there] at removed
    cases removed
  | ok later =>
    obtain ⟨same, gone⟩ := pending.of_remove removed
    exact undone same fun _ => gone

/-- Renaming takes the temporary file away and puts its content in the place of the destination. -/
theorem of_rename (content : current.fileAt (d.key temporary) = some data)
    (target : d.IsTarget q (d.key destination)) (apart : d.key destination ≠ d.key temporary)
    (renamed : current.rename temporary destination = .ok later) :
    later.fileAt (d.key destination) = some data ∧ ∀ x, x ≠ d.key destination → later.fileAt x = d.fileAt x := by
  obtain ⟨file, there, plain, own⟩ := pending.found
  rw [content] at own
  have same := pending.same
  unfold rename at renamed
  split at renamed
  · cases renamed
  split at renamed
  · cases renamed
  rw [there] at renamed
  dsimp only at renamed
  rw [if_neg (by simpa [same.key] using fun equal => apart equal.symm)] at renamed
  split at renamed
  · cases renamed
  rename_i allowed
  injection renamed with moved
  obtain ⟨parent, other⟩ : d.parentKey (d.key destination) = d.key q ∧ d.key q ≠ d.key destination := by
    refine target.placed.resolve_left ?_
    rintro ⟨host, directory⟩
    apply allowed
    have still := same.directories _ apart directory
    simpa [same.onHost, host, find?, same.key, isDirectoryAt] using still
  have erased := sameBut_erase current temporary
  rw [same.key] at erased
  have before := same.trans (erased.1.mono (fun _ => id) fun _ => False.elim)
  have above : (current.erase temporary).parentKey ((current.erase temporary).key destination) = d.key q := by
    rw [before.key, before.parentKey, parent]
  have placed := sameBut_place (current.erase temporary) destination (e := file)
    (by simp [DiskEntry.isDirectory, plain]) (above ▸ erased.1.directories _ pending.apart pending.directory)
    (by rw [above, before.key]; exact other)
  rw [before.key, moved] at placed
  refine ⟨placed.2.trans (by rw [own]), fun x different => ?_⟩
  rw [placed.1.files x different]
  by_cases gone : x = d.key temporary
  · rw [gone, fileAt_of_absent erased.2, fileAt_of_absent pending.fresh]
  · exact before.files x gone

theorem atomic_complete (target : d.IsTarget q (d.key destination)) (apart : d.key destination ≠ d.key temporary) :
    Atomic d (d.key destination) data (complete cancel current temporary destination data) := by
  have given : ∀ {current e}, Pending d q temporary current →
      Atomic d (d.key destination) data (abandon current temporary e) :=
    fun pending => pending.atomic_abandon target.lasting apart
  unfold complete
  cases written : current.writeTemporary temporary data with
  | error e => exact given pending
  | ok next =>
    have put : current.putContent temporary data = next := by
      unfold writeTemporary at written
      split at written
      · cases written
      · injection written
    obtain ⟨pending, content⟩ := pending.put data
    rw [put] at pending content
    dsimp only
    cases next.closeTemporary temporary with
    | error e => exact given pending
    | ok _ =>
      cases next.chmod temporary with
      | error e => exact given pending
      | ok _ =>
        dsimp only
        split
        · exact given pending
        · cases renamed : next.rename temporary destination with
          | error e => exact given pending
          | ok later =>
            obtain ⟨content, others⟩ := pending.of_rename content target apart renamed
            exact .done content others

end Pending

/-- A temporary file in a directory that was made for it, with a name longer than `bound`. -/
theorem pending_of_createTemporary (grounded : d.IsGrounded) (filled : q ≠ []) (names : Names q lead bound)
    (made_eq : d.makeDirectory q = .ok made) (same : d.SameBut (fun _ => False) (d.Missing (d.key q)) made)
    (there : made.isDirectoryAt (d.key q)) (opened : made.createTemporary q lead = .ok (temporary, current)) :
    Pending d q temporary current ∧ bound < (splitLast (d.key temporary)).2.length := by
  have working : made.onHost → isAbsolute made.workingDirectory := by
    rw [same.onHost, same.workingDirectory]
    exact grounded.working
  obtain ⟨⟨c, proper, long, named⟩, fresh, others, empty⟩ :=
    opened_of_openTemporary filled names _ working (same.key _ ▸ there) opened
  rw [same.key] at fresh others empty
  obtain ⟨front, split, _⟩ := splitLast_key_join d grounded.working filled proper
  rw [← named] at split
  have apart : d.key q ≠ d.key temporary := fun equal => lookup_ne_none there (equal ▸ fresh)
  refine ⟨⟨(makeDirectory_cases made_eq).1, same.absent fresh, ?_, ?_, others.directories _ apart there,
    by rw [empty]; rfl⟩, by rw [split]; exact long⟩
  · rw [named]
    exact parentKey_key_join d grounded.working filled proper
  · exact (same.mono (fun _ => False.elim) fun _ => id).trans (others.mono (fun _ => id) fun _ => False.elim)

theorem Atomic.of_sameBut (same : d.SameBut (fun _ => False) (d.Missing (d.key q)) made)
    (lasting : ¬ d.Missing (d.key q) k) : Atomic d k data (.error e, made) :=
  .undone (same.files k not_false) (same.kind not_false lasting) (fun x _ => same.files x not_false)
    fun _ x => same.files x not_false

theorem atomic_write (grounded : d.IsGrounded) (root path data : Text)
    (fits : d.onHost = false → d.TakesFile (join [root, path])) :
    Atomic d (d.key (join [root, path])) data (write root cancel d path data) := by
  have filled := dir_ne_nil (join [root, path])
  have unchanged : ∀ {e}, Atomic d (d.key (join [root, path])) data (.error e, d) :=
    .undone rfl rfl (fun _ _ => rfl) fun _ _ => rfl
  unfold write
  split
  · exact unchanged
  dsimp only
  cases made_eq : d.makeDirectory (dir (join [root, path])) with
  | error e => exact unchanged
  | ok made =>
    obtain ⟨room, same, there⟩ := makeDirectory_spec grounded (clean_dir _) (fun memory => (fits memory).room) made_eq
    obtain ⟨target, short⟩ := target_of_destination grounded root path fits room
    dsimp only
    cases opened : made.createTemporary (dir (join [root, path])) ("." ++ base (join [root, path]) ++ ".tmp-") with
    | error e => exact .of_sameBut same target.lasting
    | ok result =>
      obtain ⟨pending, long⟩ :=
        pending_of_createTemporary grounded filled (names_temporary _ _ filled) made_eq same there opened
      exact pending.atomic_complete target (pending.apart_of_length long short)

theorem fileAt_prepare (grounded : d.IsGrounded) (root : Text)
    (room : d.onHost = false → d.HasRoom (d.key (clean root)))
    (prepared : prepare root cancel d = (.ok (), later)) (x : Text) : later.fileAt x = d.fileAt x := by
  unfold prepare at prepared
  dsimp only at prepared
  split at prepared
  · cases prepared
  split at prepared
  · cases prepared
  rename_i made made_eq
  split at prepared
  · cases prepared
  rename_i probe current opened
  split at prepared
  · cases prepared
  rename_i last removed
  cases prepared
  obtain ⟨_, same, there⟩ := makeDirectory_spec grounded (clean_clean_eq root) room made_eq
  have names : Names (clean root) ".kiln-probe-" 0 := fun n =>
    have proper := isComponent_temporary (by decide) (by decide) n
    ⟨_, proper, List.length_pos_iff.mpr proper.1, rfl⟩
  obtain ⟨pending, _⟩ :=
    pending_of_createTemporary grounded (clean_ne_nil root) names made_eq same there opened
  obtain ⟨others, gone⟩ := pending.of_remove removed
  by_cases own : x = d.key probe
  · rw [own, gone, fileAt_of_absent pending.fresh]
  · exact others.files x own

/-- The calls of a write, apart from the removal of what it gives up. -/
def calls : List DiskCall := [.mkdir, .create, .write, .close, .chmod, .rename]

theorem Pending.complete_ok (pending : Pending d q temporary current) (lasting : ¬ d.Missing (d.key q) (d.key destination))
    (free : d.isDirectoryAt (d.key destination) = false) (apart : d.key destination ≠ d.key temporary)
    (able : ∀ call ∈ calls, ∀ p, d.isFaulty call p = false) (going : cancel.late = false) :
    (complete cancel current temporary destination data).1 = .ok () := by
  have works : ∀ {current}, Pending d q temporary current → ∀ call ∈ calls, ∀ p, current.isFaulty call p = false := by
    intro current pending call mem p
    rw [pending.same.isFaulty, able call mem]
  have written : current.writeTemporary temporary data = .ok (current.putContent temporary data) := by
    rw [writeTemporary, works pending .write (by decide)]
    rfl
  have pending := (pending.put data).1
  generalize current.putContent temporary data = next at written pending
  obtain ⟨file, there, _⟩ := pending.found
  have writable : next.readonly = false := by rw [pending.same.readonly, pending.writable]
  have closed : next.closeTemporary temporary = .ok () := by
    rw [closeTemporary, works pending .close (by decide)]
    rfl
  have changed : next.chmod temporary = .ok () := by
    rw [chmod, writable, works pending .chmod (by decide), there]
    rfl
  have plain : (next.find? destination).any (·.isDirectory) = false := by
    have still := (pending.same.kind apart lasting).trans free
    simpa [isDirectoryAt, find?, pending.same.key] using still
  have renamed : ∃ later, next.rename temporary destination = .ok later := by
    have moved : ¬ (next.key temporary == next.key destination) := by
      simpa [pending.same.key] using fun equal => apart equal.symm
    rw [rename, writable, works pending .rename (by decide), there, plain]
    simp [moved]
  obtain ⟨later, renamed⟩ := renamed
  unfold complete
  rw [written]
  dsimp only
  rw [closed]
  rw [changed]
  rw [going, renamed]
  rfl

/-- A write succeeds where a file can be, if no call fails and one of the names for the temporary file is free. -/
theorem write_ok (grounded : d.IsGrounded) (root path data : Text) (fits : d.TakesFile (join [root, path]))
    (writable : d.readonly = false) (able : ∀ call ∈ calls, ∀ p, d.isFaulty call p = false)
    (free : ∃ n, n ≤ 9999 ∧ d.find? (join [dir (join [root, path]),
      "." ++ base (join [root, path]) ++ ".tmp-" ++ Text.ofNat (d.temporaries + 1 + n)]) = none)
    (begun : cancel.early = false) (going : cancel.late = false) :
    (write root cancel d path data).1 = .ok () := by
  have filled := dir_ne_nil (join [root, path])
  obtain ⟨made, made_eq⟩ := exists_makeDirectory grounded (clean_dir _) fits.room writable (able .mkdir (by decide) _)
  obtain ⟨room, same, there⟩ := makeDirectory_spec grounded (clean_dir _) (fun _ => fits.room) made_eq
  obtain ⟨target, short⟩ := target_of_destination grounded root path (fun _ => fits) room
  have names := names_temporary (join [root, path]) _ filled
  have opened : ∃ r, made.createTemporary (dir (join [root, path]))
      ("." ++ base (join [root, path]) ++ ".tmp-") = .ok r := by
    refine exists_openTemporary _ (by rw [same.readonly, writable])
      (fun p => by rw [same.isFaulty, able .create (by decide)]) ?_
    obtain ⟨n, few, free⟩ := free
    refine ⟨n, few, ?_⟩
    obtain ⟨c, proper, _, named⟩ := names (d.temporaries + 1 + n)
    rw [temporaries_makeDirectory made_eq, find?, same.key]
    have parent := parentKey_key_join d grounded.working filled proper
    rw [← named] at parent
    have lasting := IsTarget.of_free parent room (not_isDirectoryAt_of_absent free)
    apply lookup_eq_none
    · rw [same.files _ not_false, fileAt_of_absent free]
    · rw [same.kind not_false lasting.lasting, not_isDirectoryAt_of_absent free]
  obtain ⟨⟨temporary, current⟩, opened⟩ := opened
  obtain ⟨pending, long⟩ := pending_of_createTemporary grounded filled names made_eq same there opened
  unfold write
  rw [begun]
  simp only [made_eq, opened]
  exact pending.complete_ok target.lasting fits.free (pending.apart_of_length long short) able going

/-- Every write is done as a whole or not at all, whichever calls fail and wherever it is canceled, and it is done if
nothing fails. Preparing a root changes no file. -/
theorem done_or_undone (grounded : d.IsGrounded) (root : Text) (cancel : Cancel) :
    (∀ path data, (d.onHost = false → d.TakesFile (join [root, path])) →
      Atomic d (d.key (join [root, path])) data (write root cancel d path data)) ∧
    (∀ path data, d.TakesFile (join [root, path]) → d.readonly = false →
      (∀ call ∈ calls, ∀ p, d.isFaulty call p = false) →
      (∃ n, n ≤ 9999 ∧ d.find? (join [dir (join [root, path]),
        "." ++ base (join [root, path]) ++ ".tmp-" ++ Text.ofNat (d.temporaries + 1 + n)]) = none) →
      cancel.early = false → cancel.late = false → (write root cancel d path data).1 = .ok ()) ∧
    ((d.onHost = false → d.HasRoom (d.key (clean root))) →
      ∀ later, prepare root cancel d = (.ok (), later) → ∀ x, later.fileAt x = d.fileAt x) :=
  ⟨fun path data fits => atomic_write grounded root path data fits,
    fun path data fits writable able free begun going => write_ok grounded root path data fits writable able free begun going,
    fun room _ prepared x => fileAt_prepare grounded root room prepared x⟩

def outputDisk (onHost : Bool) : Disk where
  onHost := onHost
  entries := [("/", { names := some ["out"] }), ("/out", { names := some ["A.js"] }), ("/out/A.js", { content := "old" })]

theorem isGrounded_outputDisk (onHost : Bool) : (outputDisk onHost).IsGrounded where
  root := rfl
  working _ := rfl
  home host := by
    obtain rfl : onHost = true := host
    decide
  above host k there := by
    obtain rfl : onHost = true := host
    by_cases root : k = "/"
    · rw [root]
      decide
    by_cases inside : k = "/out"
    · rw [inside]
      decide
    by_cases file : k = "/out/A.js"
    · rw [file] at there
      exact absurd there (by decide)
    · simp [isDirectoryAt, outputDisk, List.lookup_cons, beq_eq_false_iff_ne.mpr root, beq_eq_false_iff_ne.mpr inside,
        beq_eq_false_iff_ne.mpr file] at there

theorem done_or_undone_outputDisk :
    Atomic (outputDisk true) "/out/A.js" "new" (write "/out" { late := true } (outputDisk true) "A.js" "new") ∧
      (write "/out" {} (outputDisk false) "A.js" "new").1 = .ok () ∧
      ∀ x, (prepare "/out" {} (outputDisk false)).2.fileAt x = (outputDisk false).fileAt x := by
  refine ⟨?_, ?_, ?_⟩
  · exact (done_or_undone (isGrounded_outputDisk true) "/out" { late := true }).1 "A.js" "new" nofun
  · exact (done_or_undone (isGrounded_outputDisk false) "/out" {}).2.1 "A.js" "new" ⟨.there (by decide), by decide⟩ rfl
      (fun _ _ _ => rfl) ⟨0, by decide, by decide⟩ rfl rfl
  · exact (done_or_undone (isGrounded_outputDisk false) "/out" {}).2.2 (fun _ => .there (by decide)) _ rfl

theorem Atomic.fileAt_eq {r : Except WriteError Unit × Disk} (atomic : Atomic d k data r) {x : Text}
    (file : (d.fileAt x).isSome) (other : x ≠ k) : r.2.fileAt x = d.fileAt x := by
  cases atomic with
  | done _ others => exact others x other
  | undone _ _ others _ => exact others x file

def crowdedDisk : Disk where
  entries := [("/", { names := some ["out"] }), ("/out", { names := some ["js", "d"] }), ("/out/js", { content := "x" }),
    ("/out/d", { names := some ["x"] }), ("/out/d/x", { content := "1" })]

/-- In memory a write below a file makes a directory of it, and so does preparing a root there; a write in the place
of a directory makes a file of it. -/
theorem not_done_or_undone_crowdedDisk :
    crowdedDisk.IsGrounded ∧
      ¬ Atomic crowdedDisk (crowdedDisk.key (join ["/out", "js/A.js"])) "y"
        (write "/out" {} crowdedDisk "js/A.js" "y") ∧
      (write "/out" {} crowdedDisk "js/A.js" "y").1 = .ok () ∧
      crowdedDisk.isDirectoryAt "/out/d" ∧ (write "/out" {} crowdedDisk "d" "y").2.isDirectoryAt "/out/d" = false ∧
      (prepare "/out/js" {} crowdedDisk).1 = .ok () ∧ (prepare "/out/js" {} crowdedDisk).2.fileAt "/out/js" = none := by
  refine ⟨⟨rfl, nofun, nofun, nofun⟩, ?_, ?_, ?_, ?_, ?_, ?_⟩
  · intro atomic
    have kept := atomic.fileAt_eq (x := "/out/js") (by decide) (by decide)
    exact absurd kept (by decide)
  · decide
  · decide
  · decide
  · decide
  · decide

end FileTree

end ScriptBuild
