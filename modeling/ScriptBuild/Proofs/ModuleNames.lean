import ScriptBuild.Proofs.Places
import ScriptBuild.Proofs.UnitDescriptions

/-! Qualified names and paths of files that stand for the same module. -/

namespace ScriptBuild

section

open List ScriptBuild.Path Text

variable {a b : UInt8} {front rest word s part base extension root subdir : Text}

namespace Text

variable {sep : UInt8} {t : Text}

variable {parts others : List Text}

/-- A text without separators goes on with the last part. -/
theorem split_append_plain (s : Text) (plain : sep ∉ t) :
    split sep (s ++ t) = (split sep s).dropLast ++ [(split sep s).getLastD [] ++ t] := by
  induction s with
  | nil => simpa [split] using split_of_not_mem plain
  | cons b s ih =>
    have more := split_ne_nil sep s
    simp only [cons_append, split, ih]
    cases parts : split sep s with
    | nil => exact absurd parts more
    | cons part rest =>
      cases rest with
      | nil | cons next rest => split <;> simp

theorem replaceByte_replaceByte (a b : UInt8) (s : Text) : replaceByte a b (replaceByte b a s) = replaceByte a b s := by
  simp only [replaceByte, map_map]
  refine map_congr_left fun x _ => ?_
  by_cases first : x = a <;> by_cases second : x = b <;> simp [first, second]

theorem not_mem_replaceByte (other : a ≠ b) (s : Text) : a ∉ replaceByte a b s := by
  intro mem
  obtain ⟨x, _, same⟩ := mem_map.mp mem
  by_cases first : x = a
  · exact other (by simpa [first] using same.symm)
  · simp [first] at same

theorem replaceByte_of_not_mem (absent : a ∉ s) : replaceByte a b s = s := by
  refine (map_congr_left fun x mem => ?_).trans (map_id s)
  have other : x ≠ a := fun same => absent (same ▸ mem)
  simp [other]

theorem join_inj (filled : parts ≠ []) (more : others ≠ []) (plain : ∀ part ∈ parts, sep ∉ part)
    (simple : ∀ part ∈ others, sep ∉ part) : join [sep] parts = join [sep] others ↔ parts = others := by
  refine ⟨fun same => ?_, fun same => by rw [same]⟩
  rw [← split_join filled plain, same, split_join more simple]

theorem join_append (sep : Text) (filled : parts ≠ []) (more : others ≠ []) :
    join sep (parts ++ others) = join sep parts ++ (sep ++ join sep others) := by
  induction parts with
  | nil => exact absurd rfl filled
  | cons part parts ih =>
    by_cases last : parts = []
    · rw [last, singleton_append, join_cons_cons sep part others more]
      simp [join]
    · rw [cons_append, join_cons_cons sep part _ (by simp [last]), ih last, join_cons_cons sep part _ last]
      simp

theorem mem_join {sep : Text} (mem : b ∈ join sep parts) : b ∈ sep ∨ ∃ part ∈ parts, b ∈ part := by
  induction parts with
  | nil => cases mem
  | cons part parts ih =>
    by_cases last : parts = []
    · exact .inr ⟨part, mem_cons_self, by simpa [last, join] using mem⟩
    · rw [join_cons_cons sep part parts last, mem_append, mem_append] at mem
      rcases mem with here | between | later
      · exact .inr ⟨part, mem_cons_self, here⟩
      · exact .inl between
      · rcases ih later with between | ⟨other, inside, found⟩
        · exact .inl between
        · exact .inr ⟨other, mem_cons_of_mem part inside, found⟩

theorem join_append_last (sep : Text) (parts : List Text) (last ending : Text) :
    join sep (parts ++ [last ++ ending]) = join sep (parts ++ [last]) ++ ending := by
  by_cases none : parts = []
  · simp [none, join]
  · rw [join_append sep none (cons_ne_nil _ _), join_append sep none (cons_ne_nil _ _)]
    simp [join]

theorem dropPrefix?_append (front s : Text) : dropPrefix? front (front ++ s) = some s := by
  induction front with
  | nil => rfl
  | cons b front ih => simpa [dropPrefix?] using ih

/-- A text whose only dot is followed by something else does not begin with two dots. -/
theorem startsWith_dots (plain : ('.' : UInt8) ∉ front) (simple : ('.' : UInt8) ∉ word) :
    startsWith (front ++ ("." ++ word)) ".." = false := by
  rw [startsWith, Option.isSome_eq_false_iff, Option.isNone_iff_eq_none]
  refine Option.eq_none_iff_forall_not_mem.mpr fun rest found => ?_
  have whole : front ++ ("." ++ word) = ".." ++ rest := append_of_dropPrefix? found
  cases front with
  | nil =>
    injection whole with _ more
    have start : word = ('.' : UInt8) :: rest := more
    exact simple (start ▸ mem_cons_self)
  | cons b front =>
    injection whole with same
    rw [same] at plain
    exact plain mem_cons_self

theorem dropSuffix_append (ending s : Text) : dropSuffix ending (s ++ ending) = s := by
  simp [dropSuffix, dropPrefix, dropPrefix?_append]

theorem cut?_append (plain : sep ∉ t) (s : Text) :
    cut? [sep] (t ++ s) = (cut? [sep] s).map fun (before, after) => (t ++ before, after) := by
  induction t with
  | nil => simp
  | cons b t ih =>
    rw [mem_cons, not_or] at plain
    rw [cons_append, cut?]
    simp only [dropPrefix?, beq_eq_false_iff_ne.mpr plain.1, Bool.false_eq_true, if_false, ih plain.2, Option.map_map]
    rfl

theorem cutLast?_append (s : Text) (plain : sep ∉ t) :
    cutLast? [sep] (s ++ t) = (cutLast? [sep] s).map fun (before, after) => (before, after ++ t) := by
  have reversed : sep ∉ t.reverse := by simpa using plain
  simp only [cutLast?, reverse_append, reverse_singleton, cut?_append reversed, Option.map_map]
  congr 1
  funext pair
  simp

theorem cutLast?_append_cons (s : Text) (plain : sep ∉ t) : cutLast? [sep] (s ++ sep :: t) = some (s, t) := by
  have last : cutLast? [sep] (s ++ [sep]) = some (s, []) := by
    simp [cutLast?, cut?, dropPrefix?]
  rw [append_cons, cutLast?_append _ plain, last]
  rfl

end Text

/-- A module: the packages above it, and its own name. -/
@[ext]
structure ModuleName where
  packages : List Text
  name : Text
  deriving DecidableEq

namespace ModuleName

def parts (s : Text) : List Text := Text.split '/' (Text.replaceByte '.' '/' s)

/-- The module that a qualified name, or the path of a file without its extension, stands for. Packages
without a name count for nothing. -/
def of (s : Text) : ModuleName :=
  ⟨(parts s).dropLast.filter fun part => !part.isEmpty, (parts s).getLastD []⟩

theorem of_replaceByte (s : Text) : of (replaceByte '/' '.' s) = of s := by
  simp [of, parts, replaceByte_replaceByte]

def IsWord (s : Text) : Prop := (('/' : Char) : UInt8) ∉ s ∧ (('.' : Char) : UInt8) ∉ s

theorem isWord_of_mem_parts (mem : part ∈ parts s) : IsWord part :=
  (of_mem_split mem).imp_right fun inside dot => not_mem_replaceByte (by decide) s (inside dot)

theorem getLastD_mem_parts (s : Text) : (parts s).getLastD [] ∈ parts s := by
  have filled : parts s ≠ [] := split_ne_nil _ _
  rw [getLastD_eq_getLast?, getLast?_eq_some_getLast filled]
  exact getLast_mem filled

theorem isWord_name (s : Text) : IsWord (of s).name := isWord_of_mem_parts (getLastD_mem_parts s)

theorem isWord_of_mem_packages {package : Text} (mem : package ∈ (of s).packages) :
    package ≠ [] ∧ IsWord package := by
  obtain ⟨inside, filled⟩ := mem_filter.mp mem
  exact ⟨by simpa using filled, isWord_of_mem_parts (dropLast_subset _ inside)⟩

def path (m : ModuleName) : Text := Text.join "/" (m.packages ++ [m.name])

theorem isWord_of_mem_path (mem : part ∈ (of s).packages ++ [(of s).name]) : IsWord part := by
  rcases mem_append.mp mem with package | name
  · exact (isWord_of_mem_packages package).2
  · rw [mem_singleton.mp name]
    exact isWord_name s

theorem dot_not_mem_path (s : Text) : ('.' : UInt8) ∉ (of s).path := by
  intro dot
  rcases mem_join dot with slash | ⟨part, mem, inside⟩
  · exact absurd slash (by decide)
  · exact (isWord_of_mem_path mem).2 inside

theorem parts_path (s : Text) : parts (of s).path = (of s).packages ++ [(of s).name] := by
  rw [parts, replaceByte_of_not_mem (dot_not_mem_path s)]
  exact split_join (by simp) fun part mem => (isWord_of_mem_path mem).1

theorem of_path (s : Text) : of (of s).path = of s := by
  have filled : (of s).packages.filter (fun part => !part.isEmpty) = (of s).packages :=
    filter_eq_self.mpr fun package mem => by simpa using (isWord_of_mem_packages mem).1
  rw [of, parts_path]
  simp [filled]

end ModuleName

open ModuleName

namespace Path

variable (front : Text) (rooted : Bool) {path : Text} {parts : List Text}

theorem foldl_push_filter (parts : List Text) : ∀ stack, parts.foldl (push rooted) stack =
      (parts.filter fun part => !part.isEmpty).foldl (push rooted) stack := by
  induction parts with
  | nil => exact fun _ => rfl
  | cons part parts ih =>
    intro stack
    cases part with
    | nil => exact ih stack
    | cons b part => exact ih _

theorem foldl_push_components (proper : ∀ part ∈ parts, IsComponent part) :
    ∀ stack, parts.foldl (push rooted) stack = parts.reverse ++ stack := by
  induction parts with
  | nil => exact fun _ => rfl
  | cons part parts ih =>
    intro stack
    obtain ⟨here, rest⟩ := forall_mem_cons.mp proper
    rw [foldl_cons, push_component here, ih rest]
    simp

theorem components_append (base rest : Text) (filled : base ≠ []) : components (base ++ ("/" ++ rest)) =
      ((split '/' rest).foldl (push (isAbsolute base)) (components base).reverse).reverse := by
  have rooted : isAbsolute (base ++ ("/" ++ rest)) = isAbsolute base := by
    cases base with
    | nil => exact absurd rfl filled
    | cons b base => rfl
  have parts : split '/' (base ++ ("/" ++ rest)) = split '/' base ++ split '/' rest :=
    split_append '/' base rest
  simp [components, rooted, parts]

theorem isComponent_of_isWord (filled : s ≠ []) (word : ModuleName.IsWord s) : IsComponent s := by
  refine ⟨filled, ?_, ?_, word.1⟩
  all_goals
    rintro rfl
    exact word.2 (by decide)

/-- A file of a module below some place. -/
theorem components_module (filled : base ≠ []) (s : Text) {ending : Text}
    (proper : IsComponent ((ModuleName.of s).name ++ ending)) :
    components (base ++ ("/" ++ (Text.replaceByte '.' '/' s ++ ending))) =
      components base ++ ((ModuleName.of s).packages ++ [(ModuleName.of s).name ++ ending]) := by
  have plain : ('/' : UInt8) ∉ ending := fun slash =>
    proper.2.2.2 (mem_append_right _ slash)
  have packages : ∀ stack, (parts s).dropLast.foldl (push (isAbsolute base)) stack =
      (ModuleName.of s).packages.reverse ++ stack := by
    intro stack
    rw [foldl_push_filter]
    refine foldl_push_components _ (fun package mem => ?_) stack
    obtain ⟨filled, word⟩ := isWord_of_mem_packages mem
    exact isComponent_of_isWord filled word
  have last : (parts s).getLastD [] = (ModuleName.of s).name := rfl
  rw [components_append _ _ filled, split_append_plain _ plain, foldl_append, ← parts,
    packages, last, foldl_cons, push_component proper]
  simp

theorem join_of_ne_nil (filled : base ≠ []) (rest : Text) : join [base, rest] = clean (base ++ ("/" ++ rest)) := by
  have head : base.isEmpty = false := by simpa using filled
  simp only [join, dropWhile, head]
  simp [Text.join]

/-- A file name with an extension is a component of a path, also if nothing stands before the dot. -/
theorem isComponent_file {name : Text} (plain : ('/' : UInt8) ∉ name) (filled : extension ≠ [])
    (word : ModuleName.IsWord extension) : IsComponent (name ++ ("." ++ extension)) := by
  have last : (name ++ ("." ++ extension)).getLast? = extension.getLast? := by
    obtain ⟨b, rest, rfl⟩ := exists_cons_of_ne_nil filled
    simp [getLast?_cons]
  have ending : extension.getLast? ≠ some ('.' : UInt8) := fun dot =>
    word.2 (mem_of_getLast? dot)
  refine ⟨by simp [filled], fun same => ?_, fun same => ?_, ?_⟩
  · exact ending (by rw [← last, same]; rfl)
  · exact ending (by rw [← last, same]; rfl)
  · rw [mem_append, mem_append, not_or, not_or]
    exact ⟨plain, by decide, word.1⟩

/-- The extension of a file is what follows its last dot, whatever stands before it. -/
theorem ext_file (word : ModuleName.IsWord extension) : ext (front ++ ("." ++ extension)) = "." ++ extension := by
  have plain : ('/' : UInt8) ∉ "." ++ extension := by
    rw [mem_append, not_or]
    exact ⟨by decide, word.1⟩
  have last : ∃ tail, (splitLast (front ++ ("." ++ extension))).2 = tail ++ ("." ++ extension) := by
    unfold splitLast
    rw [show ("/" : Text) = [('/' : UInt8)] from rfl, cutLast?_append front plain]
    cases cutLast? [('/' : UInt8)] front with
    | none => exact ⟨front, rfl⟩
    | some pair => exact ⟨pair.2, rfl⟩
  obtain ⟨tail, last⟩ := last
  have cut : cutLast? "." (tail ++ ("." ++ extension)) = some (tail, extension) :=
    cutLast?_append_cons tail word.2
  rw [ext, last, cut]

theorem withoutExt_file (word : ModuleName.IsWord extension) : withoutExt (front ++ ("." ++ extension)) = front := by
  rw [withoutExt, ext_file front word, dropSuffix_append]

/-- The root of a normal path, as the beginning of all paths below it. -/
theorem join_components_append (normal : IsNormal root) (filled : parts ≠ []) :
    "/" ++ Text.join "/" (components root ++ parts) =
      (if root == "/" then ("/" : Text) else root ++ "/") ++ Text.join "/" parts := by
  have whole : "/" ++ Text.join "/" (components root) = root := by
    rw [← clean_of_isAbsolute normal.1, normal.2]
  by_cases top : components root = []
  · have same : root = "/" := by
      rw [← whole, top]
      rfl
    rw [if_pos (by rw [same]; rfl), top, nil_append]
  · have below : root ≠ "/" := by
      rintro rfl
      exact top (by decide)
    rw [if_neg (by simpa using below), join_append _ top filled, ← append_assoc, ← append_assoc, whole]

theorem exists_append_of_below? (found : below? root path = some rest) :
    path = (if root == "/" then ("/" : Text) else root ++ "/") ++ rest := by
  unfold below? at found
  split at found
  · rename_i tail front
    split at found
    · cases found
    · exact Option.some.inj found ▸ append_of_dropPrefix? front
  · cases found

/-- A file below a root is found there, unless its first component begins with two dots. -/
theorem below?_of_components (normal : IsNormal root) (filled : parts ≠ [])
    (there : path = "/" ++ Text.join "/" (components root ++ parts)) (visible : Text.join "/" parts ≠ [])
    (proper : Text.startsWith (Text.join "/" parts) ".." = false) : below? root path = some (Text.join "/" parts) := by
  rw [there, join_components_append normal filled, below?, dropPrefix?_append]
  simp [visible, proper]

end Path

theorem artifactPath_eq (filled : subdir ≠ []) (word : ModuleName.IsWord subdir) (more : extension ≠ [])
    (plain : ModuleName.IsWord extension) (qname : Text) :
    artifactPath subdir qname extension = Text.join ['/'] (subdir :: ((ModuleName.of qname).packages ++
        [(ModuleName.of qname).name ++ ("." ++ extension)])) := by
  have proper := isComponent_of_isWord filled word
  have base : components subdir = [subdir] := by
    rw [components, split_of_not_mem word.1, foldl_cons, push_component proper]
    rfl
  have parts := components_module filled qname (isComponent_file (isWord_name qname).1 more plain)
  obtain ⟨b, rest, rfl⟩ := exists_cons_of_ne_nil filled
  have relative : isAbsolute (b :: rest ++ ("/" ++ (replaceByte '.' '/' qname ++ ("." ++ extension)))) = false := by
    have other : b ≠ ('/' : UInt8) := fun same => word.1 (same ▸ mem_cons_self)
    simpa [isAbsolute] using other
  rw [artifactPath]
  simp only [more, List.isEmpty_iff, append_assoc]
  rw [join_of_ne_nil filled, clean]
  simp only [relative, parts, base, Bool.false_eq_true, if_false]
  rw [if_neg]
  · rfl
  · cases packages : (ModuleName.of qname).packages <;> simp [Text.join]

/-- Artifacts have the same place if and only if they are below the same directory and their names stand for the same
module. -/
theorem artifactPath_eq_artifactPath_iff {other : Text} (filled : subdir ≠ [])
    (word : ModuleName.IsWord subdir) (present : other ≠ []) (simple : ModuleName.IsWord other)
    (more : extension ≠ []) (plain : ModuleName.IsWord extension) (qname another : Text) :
    artifactPath subdir qname extension = artifactPath other another extension ↔
      subdir = other ∧ ModuleName.of qname = ModuleName.of another := by
  have parts : ∀ s : Text, ∀ part ∈ (ModuleName.of s).packages ++ [(ModuleName.of s).name ++ ("." ++ extension)],
      ('/' : UInt8) ∉ part := by
    intro s part mem
    rcases mem_append.mp mem with package | file
    · exact (isWord_of_mem_packages package).2.1
    · rw [mem_singleton.mp file]
      exact (isComponent_file (isWord_name s).1 more plain).2.2.2
  rw [artifactPath_eq filled word more plain, artifactPath_eq present simple more plain,
    join_inj (cons_ne_nil _ _) (cons_ne_nil _ _) (forall_mem_cons.mpr ⟨word.1, parts qname⟩)
      (forall_mem_cons.mpr ⟨simple.1, parts another⟩), ModuleName.ext_iff, cons_eq_cons,
    append_singleton_inj, append_left_inj]

/-- Artifacts of one build have the same place if and only if their names stand for the same module. -/
theorem artifactPath_eq_iff (b : Backend) (qname other : Text) :
    artifactPath b.subdir qname b.extension = artifactPath b.subdir other b.extension ↔
      ModuleName.of qname = ModuleName.of other := by
  have subdir : b.subdir ≠ [] ∧ ModuleName.IsWord b.subdir := by
    cases b <;> exact ⟨by decide, by decide, by decide⟩
  have extension : b.extension ≠ [] ∧ ModuleName.IsWord b.extension := by
    cases b <;> exact ⟨by decide, by decide, by decide⟩
  rw [artifactPath_eq_artifactPath_iff subdir.1 subdir.2 subdir.1 subdir.2 extension.1 extension.2]
  simp

namespace ProjectConfig

variable {c : ProjectConfig} {path qname other : Text}

/-- The module that the file at a path is: its path from the root on, without the extension. -/
def moduleAt (c : ProjectConfig) (path : Text) : Option ModuleName :=
  (c.relative? (Path.clean path)).map fun (relative, _) => ModuleName.of (Path.withoutExt relative)

theorem moduleAt_of_describe {spec : UnitSpec} (described : c.describe path = some spec)
    (code : spec.kind ≠ .resource) : c.moduleAt path = some (ModuleName.of spec.name) := by
  obtain ⟨relative, _, found, name⟩ := describe_eq_some described
  have kind : (spec.kind == .resource) = false := by simpa using code
  simp [moduleAt, found, name, nameOf, kind, of_replaceByte]

/-- A project with roots in normal form, none of them below another one, whose files of code have one extension
each. -/
structure IsPlain (c : ProjectConfig) : Prop where
  roots : ∀ root ∈ c.roots, Path.IsNormal root.1
  apart : ∀ root ∈ c.roots, ∀ other ∈ c.roots, ∀ path, (Path.below? root.1 path).isSome →
    (Path.below? other.1 path).isSome → root.1 = other.1
  extensions : ∀ e ∈ c.nameExtensions, ∃ word : Text, e = "." ++ word ∧ word ≠ [] ∧ ModuleName.IsWord word

/-- Where a name is looked for depends on its module. -/
theorem candidate_eq (normal : Path.IsNormal root) (filled : word ≠ []) (plain : ModuleName.IsWord word)
    (qname : Text) :
    Path.join [root, Text.replaceByte '.' '/' qname ++ ("." ++ word)] =
      "/" ++ Text.join "/" (Path.components root ++ ((ModuleName.of qname).packages ++
        [(ModuleName.of qname).name ++ ("." ++ word)])) := by
  have start : root ≠ [] := by
    rintro rfl
    cases normal.1
  rw [join_of_isAbsolute normal.1, clean_of_isAbsolute (isAbsolute_append normal.1 _), components_module start qname
      (isComponent_file (isWord_name qname).1 filled plain)]

theorem candidates_congr (plain : c.IsPlain) (filled : qname ≠ []) (more : other ≠ [])
    (same : ModuleName.of qname = ModuleName.of other) : c.candidates qname = c.candidates other := by
  unfold candidates
  rw [if_neg (by simpa using filled), if_neg (by simpa using more)]
  refine flatMap_congr fun root inside => map_congr_left fun extension mem => ?_
  obtain ⟨word, rfl, filled, simple⟩ := plain.extensions extension mem
  rw [candidate_eq (plain.roots root inside) filled simple, candidate_eq (plain.roots root inside) filled simple, same]

theorem IsPlain.moduleAt_eq (plain : c.IsPlain) {root : Text × Bool} (inside : root ∈ c.roots)
    (below : below? root.1 (clean path) = some (front ++ ("." ++ word)))
    (simple : ModuleName.IsWord word) : c.moduleAt path = some (ModuleName.of front) := by
  have found : (c.relative? (clean path)).isSome := by
    rw [relative?, findSome?_isSome_iff]
    exact ⟨root, inside, by simp [below]⟩
  obtain ⟨⟨rest, isLibrary⟩, found⟩ := Option.isSome_iff_exists.mp found
  obtain ⟨other, listed, first⟩ := exists_of_findSome?_eq_some found
  obtain ⟨rest, there, same⟩ := Option.map_eq_some_iff.mp first
  cases same
  have same := plain.apart root inside other listed (clean path) (by rw [below]; rfl) (by rw [there]; rfl)
  rw [← same, below] at there
  cases there
  simp [moduleAt, found, withoutExt_file front simple]

/-- What a name leads to is the module that the name stands for. -/
theorem moduleAt_of_mem_candidates (plain : c.IsPlain) (mem : path ∈ c.candidates qname) :
    c.moduleAt path = some (ModuleName.of qname) := by
  unfold candidates at mem
  split at mem
  · cases mem
  · obtain ⟨root, inside, found⟩ := mem_flatMap.mp mem
    obtain ⟨extension, listed, there⟩ := mem_map.mp found
    obtain ⟨word, rfl, filled, simple⟩ := plain.extensions extension listed
    have normal := plain.roots root inside
    have clean : clean path = path := by
      rw [← there, join_of_isAbsolute normal.1, clean_clean (isAbsolute_append normal.1 _)]
    have relative : join "/" ((ModuleName.of qname).packages ++ [(ModuleName.of qname).name ++ ("." ++ word)]) =
        (ModuleName.of qname).path ++ ("." ++ word) := join_append_last _ _ _ _
    rw [candidate_eq normal filled simple] at there
    have below := below?_of_components normal (by simp) there.symm
      (by rw [relative]; simp [filled])
      (by rw [relative]; exact startsWith_dots (dot_not_mem_path qname) simple.2)
    rw [relative] at below
    rw [plain.moduleAt_eq inside (clean.symm ▸ below) simple, of_path]

end ProjectConfig

end

open List Text

namespace TypeScript

/-- The directory of a package. -/
def directory (package : Text) : List Text := if package.isEmpty then [] else split '.' package

/-- Where the components of a specifier lead from a directory, unless they climb above the first `floor` components. -/
def resolve (floor : Nat) : List Text → List Text → Option (List Text)
  | place, [] => some place
  | place, part :: parts =>
    if part = "." then resolve floor place parts
    else if part = ".." then if place.length ≤ floor then none else resolve floor place.dropLast parts
    else resolve floor (place ++ [part]) parts

/-- The longest common beginning. -/
def IsRoot (root dir target : List Text) : Prop :=
  root <+: dir ∧ root <+: target ∧ ∀ other, other <+: dir → other <+: target → other <+: root

variable {root names : List Text}

theorem exists_root (dir target : List Text) (filled : target ≠ []) : ∃ root ups names, dir = root ++ ups ∧
    target = root ++ names ∧ names ≠ [] ∧ commonLength dir target = root.length ∧ IsRoot root dir target.dropLast := by
  fun_induction commonLength dir target with
  | case1 a s b c t same ih =>
    obtain rfl : a = b := eq_of_beq same
    obtain ⟨root, ups, names, rfl, rest, more, length, _, inside, longest⟩ := ih (cons_ne_nil _ _)
    refine ⟨a :: root, ups, names, rfl, by rw [rest]; rfl, more, by rw [length]; rfl, ?_, ?_, ?_⟩
    · exact prefix_append (a :: root) ups
    · exact (prefix_cons_inj a).mpr inside
    · intro other first second
      cases other with
      | nil => exact nil_prefix
      | cons x other =>
        obtain ⟨rfl, upper⟩ := cons_prefix_cons.mp first
        exact (prefix_cons_inj x).mpr (longest other upper (cons_prefix_cons.mp second).2)
  | case2 a s b c t other =>
    refine ⟨[], a :: s, b :: c :: t, rfl, rfl, cons_ne_nil _ _, rfl, nil_prefix, nil_prefix, fun common first second => ?_⟩
    cases common with
    | nil => exact nil_prefix
    | cons x common =>
      obtain ⟨rfl, _⟩ := cons_prefix_cons.mp first
      obtain ⟨rfl, _⟩ := cons_prefix_cons.mp second
      exact absurd (beq_self_eq_true x) other
  | case3 dir target apart =>
    refine ⟨[], dir, target, rfl, rfl, filled, rfl, nil_prefix, nil_prefix, fun common first second => ?_⟩
    cases dir with
    | nil => exact first
    | cons a s =>
      cases target with
      | nil => exact absurd rfl filled
      | cons b rest =>
        cases rest with
        | nil => exact second
        | cons c t => exact absurd rfl (apart a s b c t rfl)

theorem resolve_names (floor : Nat) (plain : ∀ name ∈ names, name ≠ "." ∧ name ≠ "..") :
    ∀ place, resolve floor place names = some (place ++ names) := by
  induction names with
  | nil => simp [resolve]
  | cons name names ih =>
    intro place
    obtain ⟨⟨notHere, notUp⟩, others⟩ := forall_mem_cons.mp plain
    rw [resolve, if_neg notHere, if_neg notUp, ih others, append_assoc, singleton_append]

/-- How a specifier begins: where the place is, or one step up for each component below the root. -/
def front (ups : List Text) : List Text := if ups.isEmpty then ["."] else ups.map fun _ => ".."

theorem front_ne_nil (ups : List Text) : front ups ≠ [] := by
  cases ups <;> simp [front]

theorem mem_front {ups : List Text} {part : Text} (mem : part ∈ front ups) : part = "." ∨ part = ".." := by
  cases ups with
  | nil => exact .inl (mem_singleton.mp mem)
  | cons up ups =>
    obtain ⟨_, _, same⟩ := mem_map.mp mem
    exact .inr same.symm

theorem resolve_ups (root ups parts : List Text) :
    resolve root.length (root ++ ups) (ups.map (fun _ => ("..": Text)) ++ parts) = resolve root.length root parts := by
  induction length : ups.length generalizing ups with
  | zero => simp [length_eq_zero_iff.mp length]
  | succ n ih =>
    have below : ups ≠ [] := ne_nil_of_length_eq_add_one length
    have above : ¬ (root ++ ups).length ≤ root.length := by
      rw [length_append]
      omega
    have shorter : ups.dropLast.length = n := by rw [length_dropLast, length]; rfl
    have climbs := ih ups.dropLast shorter
    rw [map_const', shorter] at climbs
    rw [map_const', length, replicate_succ, cons_append, resolve, if_neg (by decide), if_pos rfl, if_neg above,
      dropLast_append_of_ne_nil below, climbs]

theorem resolve_front (root ups parts : List Text) :
    resolve root.length (root ++ ups) (front ups ++ parts) = resolve root.length root parts := by
  cases ups with
  | nil => rw [append_nil]; rfl
  | cons up ups => exact resolve_ups root (up :: ups) parts

/-- The specifier resolves to the place of the name, climbing to the common root at most. -/
theorem resolve_modulePath (package qname : Text) : ∃ root, IsRoot root (directory package) (split '.' qname).dropLast ∧
    (resolve root.length (directory package) (split '/' (modulePath package qname))).map (join "/") =
      some (join "/" (split '.' qname)) ∧
    ("./" <+: modulePath package qname ∨ "../" <+: modulePath package qname) ∧
    (split '/' (modulePath package qname)).Pairwise fun before after : Text => after = ".." → before = ".." := by
  obtain ⟨root, ups, names, below, target, filled, common, isRoot⟩ :=
    exists_root (directory package) (split '.' qname) (split_ne_nil '.' qname)
  have path : modulePath package qname = join "/" (front ups ++ names) := by
    unfold modulePath
    dsimp only
    rw [← directory, common, below, target]
    cases ups <;> simp [front]
  have segments : split '/' (modulePath package qname) = front ups ++ names.flatMap (split '/') := by
    have pieces : split '/' (join "/" (front ups ++ names)) = (front ups ++ names).flatMap (split '/') :=
      split_join_flatMap '/' (append_ne_nil_of_right_ne_nil _ filled)
    have whole : (front ups).flatMap (split '/') = front ups := by
      rw [← split_join_flatMap '/' (front_ne_nil ups)]
      refine split_join (front_ne_nil ups) fun part member => ?_
      rcases mem_front member with rfl | rfl
      · decide
      · decide
    rw [path, pieces, flatMap_append, whole]
  have plain : ∀ word ∈ names.flatMap (split '/'), word ≠ "." ∧ word ≠ ".." := by
    intro word member
    obtain ⟨name, inside, part⟩ := mem_flatMap.mp member
    have dotless : ('.' : UInt8) ∉ name := (of_mem_split (target ▸ mem_append_right root inside)).1
    have absent : ('.' : UInt8) ∉ word := fun found => dotless ((of_mem_split part).2 found)
    exact ⟨fun same => absent (by rw [same]; decide), fun same => absent (by rw [same]; decide)⟩
  refine ⟨root, isRoot, ?_, ?_, ?_⟩
  · rw [segments, below, resolve_front, resolve_names _ plain, target]
    have joined : join "/" (names.flatMap (split '/')) = join "/" names :=
      (congrArg (join "/") (split_join_flatMap '/' filled)).symm.trans (join_split '/' _)
    by_cases top : root = []
    · simp [top, joined]
    · have words : names.flatMap (split '/') ≠ [] := by
        rw [← split_join_flatMap '/' filled]
        exact split_ne_nil _ _
      simp [join_append "/" top words, join_append "/" top filled, joined]
  · obtain ⟨first, more, begins⟩ := exists_cons_of_ne_nil (front_ne_nil ups)
    rw [path, begins, cons_append, join_cons_cons _ _ _ (append_ne_nil_of_right_ne_nil _ filled)]
    rcases mem_front (begins ▸ mem_cons_self) with rfl | rfl
    · exact .inl ⟨_, rfl⟩
    · exact .inr ⟨_, rfl⟩
  · rw [segments, pairwise_append]
    refine ⟨?_, ?_, fun _ _ word member same => absurd same (plain word member).2⟩
    · cases ups with
      | nil => exact pairwise_singleton _ _
      | cons up ups => exact pairwise_map.mpr (pairwise_of_forall fun _ _ _ => rfl)
    · exact pairwise_iff_forall_sublist.mpr fun both same =>
        absurd same (plain _ (both.subset (by simp))).2

end TypeScript

end ScriptBuild
