import Mathlib.Data.Finset.Card
import Mathlib.Data.List.ReduceOption
import ScriptBuild.Workspace.Basic

/-! Function bodies out of a cache are those out of the parser. -/

namespace ScriptBuild.BodyCache

open List

/-- A call for a body. Where there is no body, there is nothing to parse. -/
def answer (bodies : BodyKey → Body) (c : BodyCache) : Option BodyKey → Option (Block × List Diagnostic) × BodyCache
  | none => (none, c)
  | some key => ((c.resolve key (bodies key)).1, (c.resolve key (bodies key)).2)

/-- A cache after some calls. -/
def after (bodies : BodyKey → Body) (c : BodyCache) (calls : List (Option BodyKey)) : BodyCache :=
  calls.foldl (fun c call => (c.answer bodies call).2) c

/-- The bodies that were asked for, with one more call. -/
def touch (keys : List BodyKey) : Option BodyKey → List BodyKey
  | none => keys
  | some key => key :: keys.filter (· != key)

/-- The bodies that were asked for, each of them once and the last one first. -/
def recent (calls : List (Option BodyKey)) : List BodyKey := calls.foldl touch []

variable {bodies : BodyKey → Body} {c : BodyCache} {keys : List BodyKey} {key : BodyKey} {n : Nat}
  {calls : List (Option BodyKey)}

theorem recent_concat (calls : List (Option BodyKey)) (call : Option BodyKey) :
    recent (calls ++ [call]) = touch (recent calls) call := by
  simp [recent]

theorem nodup_recent (calls : List (Option BodyKey)) : (recent calls).Nodup := by
  induction calls using reverseRecOn with
  | nil => exact nodup_nil
  | append_singleton calls call ih =>
    rw [recent_concat]
    cases call with
    | none => exact ih
    | some key => exact nodup_cons.mpr ⟨by simp, ih.filter _⟩

theorem mem_recent : key ∈ recent calls ↔ some key ∈ calls := by
  induction calls using reverseRecOn with
  | nil => simp [recent]
  | append_singleton calls call ih =>
    rw [recent_concat]
    cases call with
    | none => simpa [touch] using ih
    | some k => by_cases same : key = k <;> simp [touch, same, ih]

theorem length_recent (calls : List (Option BodyKey)) : (recent calls).length = calls.reduceOption.toFinset.card := by
  rw [← toFinset_card_of_nodup (nodup_recent calls)]
  congr 1
  ext key
  simp [mem_recent, reduceOption_mem_iff]

/-- As long as a body is not asked for again, the others that are asked for come before it. -/
theorem exists_foldl_touch (between : List (Option BodyKey)) (absent : some key ∉ between) :
    ∀ keys rest, ∃ older, between.foldl touch (keys ++ key :: rest) = between.foldl touch keys ++ key :: older := by
  induction between with
  | nil => exact fun keys rest => ⟨rest, rfl⟩
  | cons call between ih =>
    intro keys rest
    rw [mem_cons, not_or] at absent
    obtain ⟨other, absent⟩ := absent
    cases call with
    | none => exact ih absent keys rest
    | some k =>
      have kept : (key != k) = true := by simpa using other
      have moved : touch (keys ++ key :: rest) (some k) = touch keys (some k) ++ key :: rest.filter (· != k) := by
        simp [touch, kept]
      rw [foldl_cons, moved]
      exact ih absent _ _

/-- A body is among the last ones if it was asked for, and not too many others were since. -/
theorem mem_take_recent : key ∈ (recent calls).take n ↔ ∃ earlier between, calls = earlier ++ some key :: between ∧
    some key ∉ between ∧ between.reduceOption.toFinset.card < n := by
  have place : ∀ earlier between, some key ∉ between →
      (key ∈ (recent (earlier ++ some key :: between)).take n ↔ (recent between).length < n) := by
    intro earlier between absent
    obtain ⟨older, split⟩ := exists_foldl_touch between absent [] ((recent earlier).filter (· != key))
    have whole : recent (earlier ++ some key :: between) = recent between ++ key :: older := by
      rw [recent, foldl_append]
      exact split
    have new : key ∉ recent between := mt mem_recent.mp absent
    rw [whole, take_append, mem_append]
    constructor
    · rintro (old | found)
      · exact absurd (mem_of_mem_take old) new
      · by_contra full
        simp [Nat.sub_eq_zero_of_le (Nat.le_of_not_lt full)] at found
    · intro room
      obtain ⟨m, left⟩ := Nat.exists_eq_add_of_lt room
      have some : n - (recent between).length = m + 1 := by omega
      exact .inr (by rw [some, take_succ_cons]; exact mem_cons_self)
  constructor
  · intro found
    have asked := mem_reverse.mpr (mem_recent.mp (mem_of_mem_take found))
    obtain ⟨between, earlier, split, absent⟩ := eq_append_cons_of_mem asked
    have order : calls = earlier.reverse ++ some key :: between.reverse := by
      rw [← reverse_reverse calls, split]
      simp
    rw [order, place _ _ (by simpa using absent), length_recent] at found
    exact ⟨_, _, order, by simpa using absent, found⟩
  · rintro ⟨earlier, between, rfl, absent, few⟩
    rwa [place _ _ absent, length_recent]

/-- What is left of the first `n + 1` keys without one of them are the first `n` others. -/
theorem take_filter_of_mem (unique : keys.Nodup) (found : key ∈ keys.take (n + 1)) :
    (keys.take (n + 1)).filter (· != key) = (keys.filter (· != key)).take n := by
  induction keys generalizing n with
  | nil => simp at found
  | cons k keys ih =>
    obtain ⟨new, unique⟩ := nodup_cons.mp unique
    by_cases same : k = key
    · subst same
      have others : ∀ x ∈ keys, (x != k) = true := fun x mem => by simpa using ne_of_mem_of_not_mem mem new
      simp [filter_eq_self.mpr others, filter_eq_self.mpr fun x mem => others x (mem_of_mem_take mem)]
    · have kept : (k != key) = true := by simpa using same
      have later : key ∈ keys.take n := by simpa [Ne.symm same] using found
      cases n with
      | zero => simp at later
      | succ n => simp [take_succ_cons, kept, ← ih unique later]

theorem take_filter_of_not_mem (absent : key ∉ keys.take n) : (keys.filter (· != key)).take n = keys.take n := by
  induction keys generalizing n with
  | nil => rfl
  | cons k keys ih =>
    cases n with
    | zero => rfl
    | succ n =>
      rw [take_succ_cons, mem_cons, not_or] at absent
      have kept : (k != key) = true := by simpa using Ne.symm absent.1
      simp [kept, ih absent.2]

/-- What holds of a cache with room for `n + 1` bodies after some calls. -/
structure Serves (bodies : BodyKey → Body) (n : Nat) (calls : List (Option BodyKey)) (c : BodyCache) : Prop where
  size : c.size = n + 1
  keys : c.entries.map (·.1) = (recent calls).take (n + 1)
  parsed : ∀ e ∈ c.entries, e.2 = (bodies e.1).parse
  counted : c.hits + c.misses = calls.countP (·.isSome)

namespace Serves

variable (serves : Serves bodies n calls c)

include serves

theorem of_lookup {parsed : Block × List Diagnostic} (found : c.entries.lookup key = some parsed) :
    key ∈ (recent calls).take (n + 1) ∧ parsed = (bodies key).parse := by
  obtain ⟨front, back, split, _⟩ := lookup_eq_some_iff.mp found
  have entry : (key, parsed) ∈ c.entries := by simp [split]
  exact ⟨serves.keys ▸ mem_map_of_mem entry, serves.parsed _ entry⟩

theorem not_mem_of_lookup (missing : c.entries.lookup key = none) : key ∉ (recent calls).take (n + 1) := by
  rw [← serves.keys]
  intro mem
  obtain ⟨e, entry, rfl⟩ := mem_map.mp mem
  simpa using lookup_eq_none_iff.mp missing e entry

theorem fst_answer (call : Option BodyKey) : (c.answer bodies call).1 = call.map fun key => (bodies key).parse := by
  cases call with
  | none => rfl
  | some key =>
    rw [answer, resolve]
    cases found : c.entries.lookup key with
    | none => rfl
    | some parsed => exact congrArg some (serves.of_lookup found).2

/-- A hit is counted for a body among the last ones. -/
theorem hits_lt_iff : c.hits < (c.answer bodies (some key)).2.hits ↔ key ∈ (recent calls).take (n + 1) := by
  rw [answer, resolve]
  cases found : c.entries.lookup key with
  | none => simpa using serves.not_mem_of_lookup found
  | some parsed => simpa using (serves.of_lookup found).1

theorem answer (call : Option BodyKey) : Serves bodies n (calls ++ [call]) (c.answer bodies call).2 := by
  cases call with
  | none =>
    refine ⟨serves.size, ?_, serves.parsed, ?_⟩
    · rw [recent_concat]
      exact serves.keys
    · rw [countP_append]
      exact serves.counted
  | some key =>
    rw [BodyCache.answer, resolve]
    have counted : c.hits + c.misses + 1 = (calls ++ [some key]).countP (·.isSome) := by simp [serves.counted]
    cases found : c.entries.lookup key with
    | none =>
      have absent := serves.not_mem_of_lookup found
      refine ⟨serves.size, ?_, fun e mem => ?_, counted⟩
      · have first : key ∉ (recent calls).take n := fun mem => absent (take_subset_take_left _ n.le_succ mem)
        simp only [recent_concat, touch, serves.size, map_take, map_cons, serves.keys, take_succ_cons,
          take_filter_of_not_mem first, take_take]
        simp
      · rcases mem_cons.mp (mem_of_mem_take mem) with rfl | old
        · rfl
        · exact serves.parsed e old
    | some parsed =>
      obtain ⟨inside, same⟩ := serves.of_lookup found
      refine ⟨serves.size, ?_, fun e mem => ?_, by rw [← counted, Nat.add_right_comm]⟩
      · have kept : (c.entries.filter fun e => e.1 != key).map (·.1) = (c.entries.map (·.1)).filter (· != key) := by
          rw [filter_map]
          rfl
        simp [recent_concat, touch, kept, serves.keys, take_filter_of_mem (nodup_recent calls) inside]
      · rcases mem_cons.mp mem with rfl | old
        · exact same
        · exact serves.parsed e (mem_filter.mp old).1

end Serves

/-- The room in a cache of some size. -/
def room (size : Int) : Nat := if size > 0 then size.toNat else 1024

theorem serves_after (size : Int) (bodies : BodyKey → Body) (calls : List (Option BodyKey)) :
    Serves bodies (room size - 1) calls ((ofSize size).after bodies calls) := by
  induction calls using reverseRecOn with
  | nil =>
    by_cases positive : size > 0
    · refine ⟨?_, ?_, ?_, ?_⟩ <;> simp [after, ofSize, room, recent, positive]
      omega
    · refine ⟨?_, ?_, ?_, ?_⟩ <;> simp [after, ofSize, room, recent, positive]
  | append_singleton calls call ih =>
    rw [after, foldl_append]
    exact ih.answer call

/-- A call gives what the parser gives, and is a hit exactly if its body was asked for before and fewer others than
there is room for were asked for since. -/
theorem after_ofSize (size : Int) (bodies : BodyKey → Body) (calls : List (Option BodyKey)) :
    let c := (ofSize size).after bodies calls
    c.entries.length ≤ room size ∧ c.hits + c.misses = calls.countP (·.isSome) ∧
      (∀ call, (c.answer bodies call).1 = call.map fun key => (bodies key).parse) ∧
      ∀ key, c.hits < (c.answer bodies (some key)).2.hits ↔ ∃ earlier between,
        calls = earlier ++ some key :: between ∧ some key ∉ between ∧
          between.reduceOption.toFinset.card < room size := by
  have positive : room size - 1 + 1 = room size := by
    unfold room
    split <;> omega
  have serves := serves_after size bodies calls
  refine ⟨?_, serves.counted, serves.fst_answer, fun key => ?_⟩
  · have bound := congrArg length serves.keys
    rw [length_map, length_take, positive] at bound
    omega
  · rw [serves.hits_lt_iff, mem_take_recent, positive]

end ScriptBuild.BodyCache
