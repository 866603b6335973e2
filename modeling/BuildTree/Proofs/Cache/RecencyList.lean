import BuildTree.Cache.Lru
import Mathlib.Data.List.Perm.Basic

/-!
# Recency lists — the strict order of use

A recency list holds entries with the most recently used one first.  Looking a key up moves its
entry to the front; setting one does so too, or pushes a new entry and drops the last one of a list
that was full.  Requests to a cache and what it answers are data, so that a cache and a list can be
asked the same questions.
-/

namespace BuildTree

universe u v

/-- Something to ask of a cache. -/
inductive CacheRequest (κ : Type u) (ν : Type v)
  | set (key : κ) (value : ν)
  | get (key : κ)
  | contains (key : κ)
  deriving DecidableEq

/-- What a cache answers: the entry it gave up, the value it found, or whether it has a key. -/
inductive CacheAnswer (κ : Type u) (ν : Type v)
  | evicted (dropped? : Option (κ × ν))
  | found (value? : Option ν)
  | present (held : Bool)
  deriving DecidableEq

/-- What is seen of a cache after a request: the answer, the size, and the keys in their order. -/
structure CacheView (κ : Type u) (ν : Type v) where
  answer : CacheAnswer κ ν
  size : Nat
  keys : List κ
  deriving DecidableEq

/-- Entries, the most recently used one first. -/
abbrev RecencyList (κ : Type u) (ν : Type v) := List (κ × ν)

namespace RecencyList

variable {κ : Type u} {ν : Type v} [DecidableEq κ]

/-- The list without the entry of a key. -/
def without (entries : RecencyList κ ν) (key : κ) : RecencyList κ ν :=
  entries.eraseP (·.1 = key)

/-- The value of a key, whose entry moves to the front. -/
def get (entries : RecencyList κ ν) (key : κ) : Option ν × RecencyList κ ν :=
  match entries.lookup key with
  | none => (none, entries)
  | some value => (some value, (key, value) :: entries.without key)

/-- Gives a key a value and moves it to the front.  A new key is pushed, and then the last entry of
a list that was full is dropped and returned. -/
def set (capacity : Nat) (entries : RecencyList κ ν) (key : κ) (value : ν) :
    Option (κ × ν) × RecencyList κ ν :=
  if (entries.lookup key).isSome then (none, (key, value) :: entries.without key)
  else
    let pushed := (key, value) :: entries
    if entries.length = capacity then (pushed.getLast?, pushed.dropLast) else (none, pushed)

/-- The answer to a request and the list afterwards. -/
def answer (capacity : Nat) (entries : RecencyList κ ν) :
    CacheRequest κ ν → CacheAnswer κ ν × RecencyList κ ν
  | .set key value => (entries.set capacity key value).map .evicted id
  | .get key => (entries.get key).map .found id
  | .contains key => (.present (entries.lookup key).isSome, entries)

/-- What is seen of a list along a run of requests. -/
def views (capacity : Nat) : RecencyList κ ν → List (CacheRequest κ ν) → List (CacheView κ ν)
  | _, [] => []
  | entries, request :: requests =>
      let (answer, entries) := entries.answer capacity request
      ⟨answer, entries.length, entries.map (·.1)⟩ :: views capacity entries requests

section Laws

variable {capacity : Nat} {entries front back : RecencyList κ ν} {key other : κ} {value : ν}

theorem lookup_eq_none (h : ∀ entry ∈ entries, entry.1 ≠ key) : entries.lookup key = none := by
  rw [List.lookup_eq_none_iff]
  intro entry hentry
  simpa using (h entry hentry).symm

/-- An entry whose key does not occur in front of it is the one that is found. -/
theorem lookup_middle (h : ∀ entry ∈ front, entry.1 ≠ key) :
    (front ++ (key, value) :: back).lookup key = some value := by
  rw [List.lookup_append, lookup_eq_none h, List.lookup_cons_self]
  rfl

theorem without_middle (h : ∀ entry ∈ front, entry.1 ≠ key) :
    without (front ++ (key, value) :: back) key = front ++ back := by
  rw [without, List.eraseP_append_right, List.eraseP_cons_of_pos]
  · simp
  · intro entry hentry
    simpa using h entry hentry

/-- A key that is found splits the list at its entry. -/
theorem exists_of_lookup (h : entries.lookup key = some value) :
    ∃ front back, entries = front ++ (key, value) :: back ∧ ∀ entry ∈ front, entry.1 ≠ key := by
  rcases List.lookup_eq_some_iff.1 h with ⟨front, back, hsplit, hfront⟩
  refine ⟨front, back, hsplit, ?_⟩
  intro entry hentry
  have hne := hfront entry hentry
  exact fun heq => by simp [heq] at hne

theorem fst_get (entries : RecencyList κ ν) (key : κ) :
    (entries.get key).1 = entries.lookup key := by
  rw [get]
  cases entries.lookup key <;> rfl

/-- Looking a key up only changes the order of the list. -/
theorem get_perm (entries : RecencyList κ ν) (key : κ) : (entries.get key).2.Perm entries := by
  rw [get]
  split
  · exact List.Perm.refl entries
  · rename_i value hvalue
    rcases exists_of_lookup hvalue with ⟨front, back, rfl, hfront⟩
    rw [without_middle hfront]
    exact List.perm_middle.symm

theorem lookup_without (h : other ≠ key) :
    (entries.without key).lookup other = entries.lookup other := by
  induction entries with
  | nil => rfl
  | cons entry entries ih =>
    rw [without] at ih ⊢
    by_cases hentry : entry.1 = key
    · have hother : (other == entry.1) = false := beq_false_of_ne (hentry ▸ h)
      rw [List.eraseP_cons_of_pos (by simpa using hentry), List.lookup_cons, hother]
    · rw [List.eraseP_cons_of_neg (by simpa using hentry), List.lookup_cons, List.lookup_cons, ih]

/-- Looking a key up changes the value of none. -/
theorem lookup_get (entries : RecencyList κ ν) (key other : κ) :
    (entries.get key).2.lookup other = entries.lookup other := by
  rw [get]
  split
  · rfl
  · rename_i value hvalue
    by_cases h : other = key
    · rw [h, List.lookup_cons_self, hvalue]
    · rw [List.lookup_cons, beq_false_of_ne h]
      exact lookup_without h

/-- Nothing but the new entry comes into a list that is set. -/
theorem mem_of_mem_set {entry : κ × ν} (h : entry ∈ (entries.set capacity key value).2) :
    entry = (key, value) ∨ entry ∈ entries := by
  apply List.mem_cons.1
  rw [set] at h
  split at h
  · rcases List.mem_cons.1 h with rfl | hmem
    · exact List.mem_cons_self
    · exact List.mem_cons_of_mem _ (List.mem_of_mem_eraseP hmem)
  · split at h
    · exact List.dropLast_subset _ h
    · exact h

/-- A list with room for anything has the entry that was set. -/
theorem mem_set_self (hcapacity : 0 < capacity) :
    (key, value) ∈ (entries.set capacity key value).2 := by
  rw [set]
  split
  · exact List.mem_cons_self
  · split
    · -- The entry that is dropped is an older one, since the list was not empty.
      rename_i hfull
      have hne : entries ≠ [] := List.ne_nil_of_length_pos (hfull ▸ hcapacity)
      dsimp only
      rw [List.dropLast_cons_of_ne_nil hne]
      exact List.mem_cons_self
    · exact List.mem_cons_self

/-! ### Keys -/

theorem map_fst_without (entries : RecencyList κ ν) (key : κ) :
    (entries.without key).map (·.1) = (entries.map (·.1)).erase key := by
  rw [List.erase_eq_eraseP, List.eraseP_map, without]
  refine congrArg (List.map _) (congrArg (List.eraseP · entries) ?_)
  funext entry
  rw [Function.comp_apply, beq_eq_decide, decide_eq_decide]
  exact eq_comm

theorem isSome_lookup_iff : (entries.lookup key).isSome ↔ key ∈ entries.map (·.1) := by
  rw [List.lookup_isSome_iff, List.mem_map]
  refine exists_congr fun entry => and_congr_right fun _ => ?_
  rw [beq_iff_eq, eq_comm]

/-- A key that is found is the first of the list afterwards. -/
theorem map_fst_get (h : key ∈ entries.map (·.1)) :
    (entries.get key).2.map (·.1) = key :: (entries.map (·.1)).erase key := by
  rcases Option.isSome_iff_exists.1 (isSome_lookup_iff.2 h) with ⟨value, hvalue⟩
  rw [get, hvalue, List.map_cons, map_fst_without]

/-- A key that is set is the first of the list afterwards, and a list that was full is cut. -/
theorem map_fst_set (hcapacity : 0 < capacity) (hlength : entries.length ≤ capacity) :
    (entries.set capacity key value).2.map (·.1) =
      (key :: (entries.map (·.1)).erase key).take capacity := by
  rw [set]
  split
  · rename_i hheld
    have hmem : key ∈ entries.map (·.1) := isSome_lookup_iff.1 hheld
    have hkept : (key :: (entries.map (·.1)).erase key).length ≤ capacity := by
      rw [List.length_cons, List.length_erase_of_mem hmem, List.length_map]
      omega
    rw [List.take_of_length_le hkept, List.map_cons, map_fst_without]
  · rename_i hnew
    have hmem : key ∉ entries.map (·.1) := fun hmem => hnew (isSome_lookup_iff.2 hmem)
    rw [List.erase_of_not_mem hmem]
    dsimp only
    split
    · -- One entry too many was pushed, and the last one is dropped.
      rename_i hfull
      rw [List.map_dropLast, List.map_cons, List.dropLast_eq_take, List.length_cons,
        List.length_map, hfull]
      rfl
    · rw [List.map_cons, List.take_of_length_le]
      rw [List.length_cons, List.length_map]
      omega

end Laws

end RecencyList
end BuildTree
