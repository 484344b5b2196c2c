import Mathlib.Data.List.TakeWhile
import ScriptBuild.Proofs.AtomicWrites

/-! Output stays where it belongs. -/

namespace ScriptBuild

open List ScriptBuild.Path Text FileTree Path ObjectTarget

variable {cs : List Text} {path temporary : Text} {last : Disk}

namespace Path

variable {root c : Text}

theorem kept_of_isComponent (proper : ∀ c ∈ cs, IsComponent c) : ∀ c ∈ cs, IsKept c ∧ ('/' : UInt8) ∉ c :=
  fun c mem => ⟨⟨(proper c mem).1, (proper c mem).2.1⟩, (proper c mem).2.2.2⟩

theorem components_join_relative (filled : cs ≠ []) (proper : ∀ c ∈ cs, IsComponent c) :
    components (Text.join "/" cs) = cs := by
  have relative := (join_filled filled (kept_of_isComponent proper)).2
  have parts : split '/' (Text.join "/" cs) = cs := split_join filled fun c mem => (proper c mem).2.2.2
  rw [components, relative, parts, foldl_push_components false proper]
  simp

theorem clean_join (filled : cs ≠ []) (proper : ∀ c ∈ cs, IsComponent c) :
    clean (Text.join "/" cs) = Text.join "/" cs := by
  rw [clean_of_relative (join_filled filled (kept_of_isComponent proper)).2, components_join_relative filled proper,
    if_neg filled]

def under (root : Text) (cs : List Text) : Text := cs.foldl (fun p c => join [p, c]) (clean root)

theorem under_concat (root : Text) (cs : List Text) (c : Text) : under root (cs ++ [c]) = join [under root cs, c] := by
  simp [under]

theorem under_spec (root : Text) (proper : ∀ c ∈ cs, IsComponent c) :
    components (under root cs) = components root ++ cs ∧ isAbsolute (under root cs) = isAbsolute root ∧
      clean (under root cs) = under root cs := by
  induction cs using reverseRecOn with
  | nil => simp [under]
  | append_singleton cs c ih =>
    obtain ⟨parts, rooted, normal⟩ := ih fun x mem => proper x (mem_append_left _ mem)
    have filled : under root cs ≠ [] := normal ▸ clean_ne_nil _
    have last := proper c (by simp)
    rw [under_concat, join_of_ne_nil filled, components_clean, components_child filled last, isAbsolute_clean_eq,
      isAbsolute_child filled, parts, rooted, clean_clean_eq, append_assoc]
    exact ⟨rfl, rfl, rfl⟩

theorem under_ne_nil (root : Text) (proper : ∀ c ∈ cs, IsComponent c) : under root cs ≠ [] :=
  (under_spec root proper).2.2 ▸ clean_ne_nil _

theorem join_eq_under (root : Text) (filled : cs ≠ []) (proper : ∀ c ∈ cs, IsComponent c) :
    join [root, Text.join "/" cs] = under root cs := by
  obtain ⟨parts, rooted, normal⟩ := under_spec root proper
  obtain ⟨some, relative⟩ := join_filled filled (kept_of_isComponent proper)
  rw [← normal]
  by_cases none : root = []
  · have own : join [root, Text.join "/" cs] = clean (Text.join "/" cs) := by
      simp [join, none, some]
      simp [Text.join]
    rw [own]
    refine clean_eq ?_ ?_
    · rw [relative, rooted, none]
      rfl
    · rw [parts, components_join_relative filled proper, none]
      rfl
  · rw [join_of_ne_nil none]
    refine clean_eq (by rw [isAbsolute_child none, rooted]) ?_
    have own : split '/' (Text.join "/" cs) = cs := split_join filled fun c mem => (proper c mem).2.2.2
    rw [parts, components_append _ _ none, own, foldl_push_components _ proper]
    simp

theorem dir_under (proper : ∀ x ∈ cs ++ [c], IsComponent x) : dir (under root (cs ++ [c])) = under root cs := by
  have front : ∀ x ∈ cs, IsComponent x := fun x mem => proper x (mem_append_left _ mem)
  obtain ⟨above, split, same⟩ := splitLast_join (under_ne_nil root front) (proper c (by simp))
  rw [under_concat, dir, split, same, (under_spec root front).2.2]

/-- What names lead to from an absolute root lies within it. -/
theorem isWithin_under (rooted : isAbsolute root) (filled : cs ≠ []) (proper : ∀ c ∈ cs, IsComponent c) :
    isWithin (clean root) (under root cs) := by
  obtain ⟨parts, absolute, normal⟩ := under_spec root proper
  have whole : under root cs = (if clean root == "/" then ("/" : Text) else clean root ++ "/") ++ Text.join "/" cs := by
    rw [← join_components_append ⟨isAbsolute_clean rooted, clean_clean rooted⟩ filled, components_clean, ← parts,
      ← clean_of_isAbsolute (absolute.trans rooted), normal]
  have lead : (if endsWith (clean root) "/" then clean root else clean root ++ "/") =
      if clean root == "/" then ("/" : Text) else clean root ++ "/" := by
    rcases clean_ends root with same | ⟨b, last, other⟩
    · rw [same]
      rfl
    · obtain ⟨rest, reversed⟩ := head?_eq_some_iff.mp (head?_reverse.trans last)
      have ends : endsWith (clean root) "/" = false := by
        rw [endsWith, reversed, startsWith, show ("/" : Text).reverse = [('/' : UInt8)] from rfl]
        simp [Text.dropPrefix?, other.symm]
      have differs : clean root ≠ "/" := by
        intro same
        rw [same] at last
        exact other (Option.some.inj last).symm
      simp [ends, differs]
  rw [isWithin, lead, whole, startsWith, dropPrefix?_append]
  simp

end Path

/-- The path of an artifact is made of proper names, whatever its qualified name is. -/
theorem exists_components_artifactPath {subdir extension : Text} (filled : subdir ≠ [])
    (word : ModuleName.IsWord subdir) (plain : ModuleName.IsWord extension) (qname : Text) :
    ∃ cs, (∀ c ∈ subdir :: cs, IsComponent c) ∧
      artifactPath subdir qname extension = join "/" (subdir :: cs) := by
  have proper := isComponent_of_isWord filled word
  by_cases none : extension = []
  · have parts : ∀ c ∈ (ModuleName.parts qname).filter (fun part => !part.isEmpty), IsComponent c := by
      intro c mem
      obtain ⟨inside, some⟩ := mem_filter.mp mem
      exact isComponent_of_isWord (by simpa using some) (ModuleName.isWord_of_mem_parts inside)
    refine ⟨_, forall_mem_cons.mpr ⟨proper, parts⟩, ?_⟩
    have own : components (subdir ++ ("/" ++ replaceByte '.' '/' qname)) =
        subdir :: (ModuleName.parts qname).filter (fun part => !part.isEmpty) := by
      have base : components subdir = [subdir] := by
        have single := components_join_relative (cons_ne_nil subdir []) (by simpa using proper)
        simpa [Text.join] using single
      rw [components_append _ _ filled, base, foldl_push_filter]
      rw [show split '/' (replaceByte '.' '/' qname) = ModuleName.parts qname from rfl, foldl_push_components _ parts]
      simp
    have relative : isAbsolute (subdir ++ ("/" ++ replaceByte '.' '/' qname)) = false := by
      have kept := kept_of_isComponent (forall_mem_singleton.mpr proper)
      have single := (join_filled (cons_ne_nil subdir []) kept).2
      rw [isAbsolute_child filled]
      simpa [Text.join] using single
    simp only [artifactPath, none, isEmpty_nil, if_true]
    rw [join_of_ne_nil filled, clean_of_relative relative, own, if_neg (cons_ne_nil _ _)]
  · refine ⟨_, forall_mem_cons.mpr ⟨proper, ?_⟩, artifactPath_eq filled word none plain qname⟩
    intro c mem
    rcases mem_append.mp mem with package | file
    · obtain ⟨some, simple⟩ := ModuleName.isWord_of_mem_packages package
      exact isComponent_of_isWord some simple
    · rw [mem_singleton.mp file]
      exact isComponent_file (ModuleName.isWord_name qname).1 none plain

namespace Disk

variable {root k x : Text} {d later : Disk} {e : DiskEntry}

/-- The place at `k` and, as long as nothing is there, those above it. -/
inductive OnWay (d : Disk) : Text → Text → Prop where
  | here (k : Text) : OnWay d k k
  | above {k x : Text} (absent : d.entries.lookup k = none) (rest : OnWay d (d.parentKey k) x) : OnWay d k x

theorem OnWay.further (way : d.OnWay k x) (absent : d.entries.lookup x = none) : d.OnWay k (d.parentKey x) := by
  induction way with
  | here k => exact .above absent (.here _)
  | above gone _ ih => exact .above gone (ih absent)

def IsBelow (d : Disk) (root x : Text) : Prop :=
  ∃ cs, cs ≠ [] ∧ (∀ c ∈ cs, Path.IsComponent c) ∧ x = d.key (under root cs)

/-- Whether a place is below a root, or one where a directory is made so that the root is there. -/
def IsNear (d : Disk) (root x : Text) : Prop := d.IsBelow root x ∨ d.OnWay (d.key (clean root)) x

/-- What came of a disk on which only places below a root changed, apart from making the root where it was missing. -/
structure Contained (root : Text) (d later : Disk) : Prop where
  onHost : later.onHost = d.onHost
  workingDirectory : later.workingDirectory = d.workingDirectory
  beside : ∀ x, ¬ d.IsBelow root x →
    later.entries.lookup x = d.entries.lookup x ∨ d.OnWay (d.key (clean root)) x ∧ later.isDirectoryAt x

theorem IsNear.under (proper : ∀ c ∈ cs, IsComponent c) : d.IsNear root (d.key (under root cs)) := by
  by_cases none : cs = []
  · rw [none]
    exact .inr (.here _)
  · exact .inl ⟨cs, none, proper, rfl⟩

/-- Above a place below the root there is another one, or the root. -/
theorem IsBelow.parentKey (working : d.IsAnchored) (below : d.IsBelow root k) : d.IsNear root (d.parentKey k) := by
  obtain ⟨cs, filled, proper, rfl⟩ := below
  rcases eq_nil_or_concat' cs with rfl | ⟨front, c, rfl⟩
  · exact absurd rfl filled
  · have above : ∀ x ∈ front, IsComponent x := fun x mem => proper x (mem_append_left _ mem)
    rw [under_concat, parentKey_key_join d working (under_ne_nil root above) (proper c (by simp))]
    exact .under above

namespace Contained

theorem refl (root : Text) (d : Disk) : Contained root d d := ⟨rfl, rfl, fun _ _ => .inl rfl⟩

variable (contained : Contained root d later)

include contained

theorem key (path : Text) : later.key path = d.key path := by
  simp [Disk.key, contained.onHost, contained.workingDirectory]

theorem parentKey (k : Text) : later.parentKey k = d.parentKey k := contained.key _

theorem set (near : d.IsNear root k) (directory : ¬ d.IsBelow root k → e.isDirectory) :
    Contained root d (later.set k e) := by
  refine ⟨contained.onHost, contained.workingDirectory, fun x outside => ?_⟩
  by_cases own : x = k
  · subst own
    refine .inr ⟨near.resolve_left outside, ?_⟩
    simp [isDirectoryAt, lookup_set, directory outside]
  · simp only [isDirectoryAt, lookup_set, if_neg own]
    exact contained.beside x outside

/-- Above a missing place on the way to the root there is another one. -/
theorem near_parentKey (working : d.IsAnchored) (near : d.IsNear root k)
    (absent : later.entries.lookup k = none) : d.IsNear root (d.parentKey k) := by
  by_cases below : d.IsBelow root k
  · exact below.parentKey working
  · rcases contained.beside k below with same | ⟨_, there⟩
    · exact .inr ((near.resolve_left below).further (same ▸ absent))
    · exact absurd absent (lookup_ne_none there)

theorem delete (below : d.IsBelow root k) : Contained root d (later.delete k) := by
  refine ⟨contained.onHost, contained.workingDirectory, fun x outside => ?_⟩
  have other : x ≠ k := fun same => outside (same ▸ below)
  have kept : (later.delete k).entries.lookup x = later.entries.lookup x := by
    rw [show (later.delete k).entries.lookup x = _ from lookup_filter_ne k x later.entries, if_neg other]
  rw [isDirectoryAt, kept]
  exact contained.beside x outside

end Contained

theorem Contained.register (working : d.IsAnchored) (fuel : Nat) :
    ∀ {later : Disk} {k : Text}, Contained root d later → d.IsNear root (d.parentKey k) →
      Contained root d (register fuel later k) := by
  induction fuel with
  | zero => exact fun contained _ => contained
  | succ fuel ih =>
    intro later k contained near
    rw [Disk.register, contained.parentKey]
    cases found : later.entries.lookup (d.parentKey k) with
    | some e => exact contained.set near fun _ => rfl
    | none =>
      have made : Contained root d (later.set (d.parentKey k) .directory) := contained.set near fun _ => rfl
      exact (ih made (contained.near_parentKey working near found)).set near fun _ => rfl

section

variable (working : d.IsAnchored) (contained : Contained root d later)

include working contained

theorem Contained.place (below : d.IsBelow root (d.key path)) (e : DiskEntry) :
    Contained root d (later.place path e) := by
  rw [Disk.place, contained.key]
  exact (contained.set (.inl below) fun outside => absurd below outside).register working _ (below.parentKey working)

theorem Contained.erase (below : d.IsBelow root (d.key path)) : Contained root d (later.erase path) := by
  have unregistered : Contained root d (later.unregister (d.key path)) := by
    unfold unregister
    rw [contained.parentKey]
    dsimp only
    cases found : later.entries.lookup (d.parentKey (d.key path)) with
    | none => exact contained
    | some e =>
      by_cases directory : e.isDirectory
      · exact contained.set (below.parentKey working) fun _ => by
          simpa [DiskEntry.removeName, DiskEntry.isDirectory] using directory
      · -- A file has no names, so it stays as it is.
        have same : e.removeName (base (d.key path)) = e := by
          cases e with
          | mk content names => cases names <;> simp [DiskEntry.removeName, DiskEntry.isDirectory] at directory ⊢
        refine ⟨contained.onHost, contained.workingDirectory, fun x outside => ?_⟩
        have kept : (later.set (d.parentKey (d.key path)) (e.removeName (base (d.key path)))).entries.lookup x =
            later.entries.lookup x := by
          rw [lookup_set, same]
          split
          · rename_i own
            rw [own, found]
          · rfl
        rw [isDirectoryAt, kept]
        exact contained.beside x outside
  rw [Disk.erase, contained.key]
  exact unregistered.delete below

theorem Contained.makeDirectory (proper : ∀ c ∈ cs, IsComponent c)
    (made : later.makeDirectory (under root cs) = .ok last) : Contained root d last := by
  obtain ⟨_, ⟨_, _, _, rfl⟩ | ⟨absent, _, rfl⟩⟩ := makeDirectory_cases made
  · exact contained
  · have near : d.IsNear root (d.key (under root cs)) := .under proper
    rw [contained.key] at absent
    rw [Disk.place, contained.key]
    exact (contained.set near fun _ => rfl).register working _ (contained.near_parentKey working near absent)

theorem Contained.rename {old new : Text} (source : d.IsBelow root (d.key old))
    (target : d.IsBelow root (d.key new)) (done : later.rename old new = .ok last) : Contained root d last := by
  unfold Disk.rename at done
  split at done
  · cases done
  split at done
  · cases done
  split at done
  · cases done
  split at done
  · cases done
    exact contained
  split at done
  · cases done
  · cases done
    exact (contained.erase working source).place working target _

theorem Contained.remove (below : d.IsBelow root (d.key path)) (done : later.remove path = .ok last) :
    Contained root d last := by
  unfold Disk.remove at done
  split at done
  · cases done
  split at done
  · cases done
  split at done
  · cases done
  · cases done
    exact contained.erase working below

end

theorem Contained.openTemporary (working : d.IsAnchored) {q lead : Text} {bound : Nat}
    (names : Names q lead bound) (inside : ∀ c, IsComponent c → d.IsBelow root (d.key (join [q, c])))
    (attempts : Nat) : ∀ {later last : Disk} {path : Text}, Contained root d later →
      openTemporary attempts later q lead = .ok (path, last) →
      Contained root d last ∧ d.IsBelow root (d.key path) := by
  induction attempts using Nat.strongRecOn with
  | ind attempts ih =>
    intro later last path contained done
    have counted : Contained root d { later with temporaries := later.temporaries + 1 } :=
      ⟨contained.onHost, contained.workingDirectory, contained.beside⟩
    rcases openTemporary_cases done with ⟨_, rfl, rfl⟩ | ⟨fewer, rfl, rest⟩
    · obtain ⟨c, proper, _, same⟩ := names (later.temporaries + 1)
      have below := same ▸ inside c proper
      exact ⟨counted.place working below {}, below⟩
    · exact ih fewer (Nat.lt_succ_self fewer) counted rest

/-- Where the root is an absolute path and a directory, nothing changes that does not lie within it. -/
theorem Contained.lookup_eq (contained : Contained root d later) (rooted : isAbsolute root)
    (there : d.isDirectoryAt (clean root)) (outside : isWithin (clean root) x = false) :
    later.entries.lookup x = d.entries.lookup x := by
  have root_key : d.key (clean root) = clean root := by
    rw [d.key_of_isAbsolute (isAbsolute_clean rooted), clean_clean rooted]
  have beside : ¬ d.IsBelow root x := by
    rintro ⟨cs, filled, proper, rfl⟩
    obtain ⟨_, absolute, normal⟩ := under_spec root proper
    rw [d.key_of_isAbsolute (absolute.trans rooted), normal, isWithin_under rooted filled proper] at outside
    cases outside
  rcases contained.beside x beside with same | ⟨way, _⟩
  · exact same
  · rw [root_key] at way
    cases way with
    | here => simp [isWithin] at outside
    | above absent _ => exact absurd absent (lookup_ne_none there)

end Disk

namespace FileTree

open Disk

variable {root : Text} {d later : Disk}

section

variable (working : d.IsAnchored) (contained : Contained root d later) (below : d.IsBelow root (d.key temporary))

include working contained below

theorem contained_abandon (e : WriteError) : Contained root d (abandon later temporary e).2 := by
  unfold abandon
  split
  · rename_i last removed
    exact contained.remove working below removed
  · exact contained

theorem contained_complete {destination : Text} (target : d.IsBelow root (d.key destination)) (cancel : Cancel)
    (data : Text) : Contained root d (complete cancel later temporary destination data).2 := by
  unfold complete
  split
  · exact contained_abandon working contained below _
  rename_i full written
  have filled : Contained root d full := by
    unfold writeTemporary at written
    split at written
    · cases written
    · cases written
      exact contained.place working below _
  have given : ∀ e, Contained root d (abandon full temporary e).2 := contained_abandon working filled below
  split
  · exact given _
  split
  · exact given _
  split
  · exact given _
  split
  · exact given _
  · rename_i renamed
    exact filled.rename working below target renamed

end

/-- Writing to a path that leads down from the root changes places below the root only. -/
theorem contained_write (working : d.IsAnchored) (root : Text) (filled : cs ≠ [])
    (proper : ∀ c ∈ cs, IsComponent c) (cancel : Cancel) (data : Text) :
    Contained root d (write root cancel d (join "/" cs) data).2 := by
  obtain rfl | ⟨front, c, rfl⟩ := eq_nil_or_concat' cs
  · exact absurd rfl filled
  have above : ∀ x ∈ front, IsComponent x := fun x mem => proper x (mem_append_left _ mem)
  have start := under_ne_nil root above
  unfold write
  split
  · exact .refl root d
  rw [join_eq_under root filled proper]
  dsimp only
  rw [dir_under proper]
  split
  · exact .refl root d
  · rename_i made makes
    have ready := (Contained.refl root d).makeDirectory working above makes
    split
    · exact ready
    · rename_i temporary opened creates
      have inside : ∀ x, IsComponent x → d.IsBelow root (d.key (join [under root front, x])) := by
        intro x named
        have all := forall_mem_append.mpr ⟨above, forall_mem_singleton.mpr named⟩
        exact ⟨front ++ [x], by simp, all, by rw [under_concat]⟩
      obtain ⟨contained, below⟩ := ready.openTemporary working (names_temporary _ _ start) inside _ creates
      exact contained_complete working contained below ⟨_, filled, proper, rfl⟩ cancel data

end FileTree

namespace Text

variable {sep : UInt8} {p : Text → Bool}

variable (skips : p [] = false) (s : Text)

include skips

/-- Separators at the beginning of a text add empty parts only. -/
theorem filter_split_append_left :
    ∀ {t : Text}, (∀ b ∈ t, b = sep) → (split sep (t ++ s)).filter p = (split sep s).filter p := by
  intro t
  induction t with
  | nil => exact fun _ => rfl
  | cons b t ih =>
    intro all
    obtain ⟨rfl, rest⟩ := forall_mem_cons.mp all
    rw [cons_append, show split b (b :: (t ++ s)) = [] :: split b (t ++ s) from split_append b [] _,
      filter_cons_of_neg (by simp [skips]), ih rest]

theorem filter_split_append_right {t : Text} (all : ∀ b ∈ t, b = sep) :
    (split sep (s ++ t)).filter p = (split sep s).filter p := by
  cases t with
  | nil => rw [append_nil]
  | cons b t =>
    obtain ⟨rfl, rest⟩ := forall_mem_cons.mp all
    have none := filter_split_append_left skips [] rest
    rw [append_nil] at none
    rw [split_append, filter_append, none]
    simp [split, skips]

theorem filter_split_trimBytes : (split sep (trimBytes (· == sep) s)).filter p = (split sep s).filter p := by
  have taken : ∀ t : Text, ∀ b ∈ t.takeWhile (· == sep), b = sep := by
    intro t b mem
    simpa using mem_takeWhile_imp mem
  have left : (split sep (trimLeftBytes (· == sep) s)).filter p = (split sep s).filter p := by
    conv => rhs; rw [← takeWhile_append_dropWhile (p := (· == sep)) (l := s)]
    exact (filter_split_append_left skips _ (taken s)).symm
  have right : ∀ t : Text, (split sep (trimRightBytes (· == sep) t)).filter p = (split sep t).filter p := by
    intro t
    have whole : t = trimRightBytes (· == sep) t ++ (t.reverse.takeWhile (· == sep)).reverse := by
      rw [trimRightBytes, ← reverse_append, takeWhile_append_dropWhile, reverse_reverse]
    conv => rhs; rw [whole]
    refine (filter_split_append_right skips _ fun b mem => ?_).symm
    exact taken t.reverse b (mem_reverse.mp mem)
  rw [trimBytes, right, left]

end Text

namespace ObjectTarget

/-- The key of an object is made of the lead and of proper names. -/
theorem exists_key_eq (t : ObjectTarget) (rel : Text) : ∃ cs, (∀ c ∈ cs, IsComponent c) ∧
    t.key rel = (if t.lead.isEmpty then [] else t.lead ++ ("/" : Text)) ++ join "/" cs := by
  have rooted : isAbsolute ("/" ++ rel) := rfl
  refine ⟨_, isComponent_of_mem_components rooted, ?_⟩
  unfold key
  split
  · rfl
  · rfl

/-- The names in a key lead upwards only where those of the lead do. -/
theorem dots_key (t : ObjectTarget) (rel : Text) :
    (split '/' (t.key rel)).filter (· == (".." : Text)) = (split '/' t.lead).filter (· == (".." : Text)) := by
  obtain ⟨cs, proper, same⟩ := t.exists_key_eq rel
  have none : (split '/' (join "/" cs)).filter (· == (".." : Text)) = [] := by
    by_cases empty : cs = []
    · rw [empty]
      rfl
    · have parts : split '/' (join "/" cs) = cs :=
        split_join empty fun c mem => (proper c mem).2.2.2
      rw [parts, filter_eq_nil_iff]
      intro c mem
      simpa using (proper c mem).2.2.1
  rw [same]
  split
  · rename_i nothing
    rw [nil_append, none, isEmpty_iff.mp nothing]
    rfl
  · have parts : split '/' (t.lead ++ (("/" : Text) ++ join "/" cs)) =
        split '/' t.lead ++ split '/' (join "/" cs) := split_append _ _ _
    rw [append_assoc, parts, filter_append, none, append_nil]

end ObjectTarget

/-- No output leaves its root: writing an artifact to a disk changes places below the root only, and the key of an
object begins with the lead of its bucket and leads upwards nowhere else. -/
theorem output_stays_below {subdir extension : Text} (filled : subdir ≠ []) (word : ModuleName.IsWord subdir)
    (plain : ModuleName.IsWord extension) (qname : Text) :
    (clean (artifactPath subdir qname extension) = artifactPath subdir qname extension ∧
      isAbsolute (artifactPath subdir qname extension) = false ∧
      ∃ rest, split '/' (artifactPath subdir qname extension) = subdir :: rest ∧
        ∀ c ∈ subdir :: rest, Path.IsComponent c) ∧
    (∀ root cancel (d : Disk) data, (d.onHost → isAbsolute d.workingDirectory) →
      Disk.Contained root d (write root cancel d (artifactPath subdir qname extension) data).2 ∧
        (isAbsolute root → d.isDirectoryAt (clean root) → ∀ x, isWithin (clean root) x = false →
          (write root cancel d (artifactPath subdir qname extension) data).2.entries.lookup x =
            d.entries.lookup x)) ∧
    ∀ (c : ObjectConfig) (t : ObjectTarget), ofConfig c = .ok t → ∀ rel,
      t.lead = trimBytes (· == ('/' : Char)) c.lead ∧
        startsWith (t.key rel) (if t.lead.isEmpty then [] else t.lead ++ ("/" : Text)) ∧
        (split '/' (t.key rel)).filter (· == (".." : Text)) =
          (split '/' c.lead).filter (· == (".." : Text)) := by
  obtain ⟨cs, proper, path⟩ := exists_components_artifactPath filled word plain qname
  have some := List.cons_ne_nil subdir cs
  rw [path]
  refine ⟨⟨clean_join some proper, ?_, cs, ?_, proper⟩, ?_, ?_⟩
  · exact (join_filled some (kept_of_isComponent proper)).2
  · exact split_join some fun c member => (proper c member).2.2.2
  · intro root cancel d data working
    have contained := contained_write working root some proper cancel data
    exact ⟨contained, fun rooted there x outside => contained.lookup_eq rooted there outside⟩
  · intro c t made rel
    have lead : t.lead = trimBytes (· == ('/' : Char)) c.lead := by
      unfold ofConfig at made
      repeat' split at made
      all_goals cases made
      rfl
    refine ⟨lead, ?_, ?_⟩
    · obtain ⟨names, _, key⟩ := t.exists_key_eq rel
      rw [key, startsWith, dropPrefix?_append]
      rfl
    · rw [t.dots_key, lead]
      exact filter_split_trimBytes rfl c.lead

/-- A bucket whose lead has slashes around it and goes up once. -/
def awkwardBucket : ObjectConfig where
  endpoint := "localhost:9000"
  accessKey := "key"
  secretKey := "secret"
  bucket := "artifacts"
  lead := "//builds/../web/"

theorem output_stays_below_upwards :
    artifactPath "js" "../..//etc.passwd" "js" = "js/etc/passwd.js" ∧
    Disk.Contained "/made" (outputDisk true)
      (write "/made" {} (outputDisk true) (artifactPath "js" "../..//etc.passwd" "js") "new").2 ∧
    (write "/out" {} (outputDisk true) (artifactPath "js" "../..//etc.passwd" "js")
      "new").2.entries.lookup ("/etc/passwd.js" : Text) = none ∧
    (mk "artifacts" "builds/../web").key "../../etc/passwd" = "builds/../web/etc/passwd" ∧
    (split '/' ((mk "artifacts" "builds/../web").key "../../etc/passwd")).filter
        (· == (".." : Text)) =
      (split '/' awkwardBucket.lead).filter (· == (".." : Text)) := by
  obtain ⟨_, write, key⟩ := @output_stays_below "js" "js" (by decide) ⟨by decide, by decide⟩ ⟨by decide, by decide⟩
    "../..//etc.passwd"
  have made : ofConfig awkwardBucket = .ok ⟨"artifacts", "builds/../web"⟩ := rfl
  refine ⟨by decide, (write "/made" {} (outputDisk true) "new" fun _ => rfl).1, ?_, by decide, ?_⟩
  · exact (write "/out" {} (outputDisk true) "new" fun _ => rfl).2 rfl rfl "/etc/passwd.js" (by decide)
  · exact (key awkwardBucket _ made "../../etc/passwd").2.2

end ScriptBuild
