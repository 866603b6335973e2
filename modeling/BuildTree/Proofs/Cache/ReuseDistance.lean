import BuildTree.Proofs.Cache.RecencyList
import Mathlib.Data.Finset.Card

/-!
# Reuse distances — keys in the order of their last use

A history of uses leaves each key at a distance: the number of other keys that were used since its
last use.  The keys in the order of their last use do not depend on any capacity, so what a cache of
a given capacity has forgotten is read off from the distances.  A recency list follows the history of
its uses: looking up a key that it has and setting any key count as one use more.
-/

namespace BuildTree

universe u v

/-- Keys without repetition, the one used last first. -/
def recentKeys {κ : Type u} [DecidableEq κ] (used : List κ) : List κ :=
  used.dedup.reverse

/-- A key that was never used, or since whose last use at least `capacity` other keys were. -/
def Forgotten {κ : Type u} [DecidableEq κ] (capacity : Nat) (used : List κ) (key : κ) : Prop :=
  key ∉ used ∨ ∃ before since, used = before ++ key :: since ∧ key ∉ since ∧
    capacity ≤ since.toFinset.card

theorem exists_last_use {κ : Type u} {used : List κ} {key : κ} (h : key ∈ used) :
    ∃ before since, used = before ++ key :: since ∧ key ∉ since := by
  rcases List.eq_append_cons_of_mem (List.mem_reverse.2 h) with ⟨since, before, hsplit, hsince⟩
  refine ⟨before.reverse, since.reverse, ?_, ?_⟩
  · rw [← List.reverse_reverse used, hsplit, List.reverse_append, List.reverse_cons,
      List.append_assoc]
    rfl
  · rwa [List.mem_reverse]

section Distances

variable {κ : Type u} [DecidableEq κ] {capacity : Nat} {used before since : List κ} {key : κ}

theorem dedup_concat (used : List κ) (key : κ) :
    (used ++ [key]).dedup = used.dedup.erase key ++ [key] := by
  induction used with
  | nil => rfl
  | cons first used ih =>
    rw [List.cons_append, List.dedup_cons, List.dedup_cons, ih]
    by_cases hlater : first ∈ used
    · rw [if_pos (List.mem_append_left _ hlater), if_pos hlater]
    · rw [if_neg hlater]
      by_cases hkey : first = key
      · -- The earlier use of the key gives way to the new one.
        subst hkey
        have hnone : first ∉ used.dedup := fun hmem => hlater (List.mem_dedup.1 hmem)
        rw [if_pos (by simp), List.erase_cons_head, List.erase_of_not_mem hnone]
      · rw [if_neg (by simp [hlater, hkey]), List.erase_cons_tail (by simpa using hkey),
          List.cons_append]

/-- A key that is used moves to the front. -/
theorem recentKeys_concat (used : List κ) (key : κ) :
    recentKeys (used ++ [key]) = key :: (recentKeys used).erase key := by
  have hnodup : used.dedup.Nodup := List.nodup_dedup used
  rw [recentKeys, recentKeys, dedup_concat, List.reverse_concat,
    (List.nodup_reverse.2 hnodup).erase_eq_filter, hnodup.erase_eq_filter, List.filter_reverse]

/-- Which keys come first after a use depends only on those that came first before. -/
theorem take_erase_take (n : Nat) (keys : List κ) (key : κ) :
    ((keys.take (n + 1)).erase key).take n = (keys.erase key).take n := by
  induction keys generalizing n with
  | nil => rfl
  | cons first keys ih =>
    rw [List.take_succ_cons]
    by_cases hkey : first = key
    · subst hkey
      rw [List.erase_cons_head, List.erase_cons_head, List.take_take, Nat.min_self]
    · have hne : ¬(first == key) = true := by simpa using hkey
      rw [List.erase_cons_tail hne, List.erase_cons_tail hne]
      cases n with
      | zero => rfl
      | succ n => rw [List.take_succ_cons, List.take_succ_cons, ih]

theorem take_recentKeys_concat (hcapacity : 0 < capacity) (used : List κ) (key : κ) :
    (recentKeys (used ++ [key])).take capacity =
      (key :: ((recentKeys used).take capacity).erase key).take capacity := by
  rcases Nat.exists_eq_succ_of_ne_zero (Nat.ne_of_gt hcapacity) with ⟨n, rfl⟩
  rw [recentKeys_concat, List.take_succ_cons, List.take_succ_cons, take_erase_take]

/-- The keys used since the last use of a key come before it, each once. -/
theorem mem_take_recentKeys_iff (hsplit : used = before ++ key :: since) (hsince : key ∉ since) :
    key ∈ (recentKeys used).take capacity ↔ since.toFinset.card < capacity := by
  have hnone : key ∉ since.dedup.reverse := fun hmem =>
    hsince (List.mem_dedup.1 (List.mem_reverse.1 hmem))
  obtain ⟨older, holder⟩ : ∃ older, recentKeys used = since.dedup.reverse ++ key :: older := by
    rcases List.suffix_union_right before (key :: since).dedup with ⟨front, hfront⟩
    refine ⟨front.reverse, ?_⟩
    rw [recentKeys, hsplit, List.dedup_append, ← hfront, List.dedup_cons_of_notMem hsince,
      List.reverse_append, List.reverse_cons, List.append_assoc]
    rfl
  rw [holder, List.card_toFinset, ← List.length_reverse, List.take_append]
  constructor
  · intro hmem
    by_contra hlong
    rw [Nat.sub_eq_zero_of_le (Nat.le_of_not_lt hlong), List.take_zero, List.append_nil] at hmem
    exact hnone (List.mem_of_mem_take hmem)
  · intro hshort
    rcases Nat.exists_eq_succ_of_ne_zero (Nat.sub_ne_zero_of_lt hshort) with ⟨n, hn⟩
    rw [hn, List.take_succ_cons]
    exact List.mem_append_right _ List.mem_cons_self

theorem forgotten_iff : Forgotten capacity used key ↔ key ∉ (recentKeys used).take capacity := by
  constructor
  · rintro (hnever | ⟨before, since, hsplit, hsince, hcard⟩) hmem
    · exact hnever (List.mem_dedup.1 (List.mem_reverse.1 (List.mem_of_mem_take hmem)))
    · exact Nat.not_lt.2 hcard ((mem_take_recentKeys_iff hsplit hsince).1 hmem)
  · intro hout
    by_cases hused : key ∈ used
    · rcases exists_last_use hused with ⟨before, since, hsplit, hsince⟩
      rw [mem_take_recentKeys_iff hsplit hsince, Nat.not_lt] at hout
      exact Or.inr ⟨before, since, hsplit, hsince, hout⟩
    · exact Or.inl hused

instance : Decidable (Forgotten capacity used key) :=
  decidable_of_iff _ forgotten_iff.symm

/-- With more room no more is forgotten. -/
theorem Forgotten.of_le {larger : Nat} (hle : capacity ≤ larger) (h : Forgotten larger used key) :
    Forgotten capacity used key := by
  rcases h with hnever | ⟨before, since, hsplit, hsince, hcard⟩
  · exact Or.inl hnever
  · exact Or.inr ⟨before, since, hsplit, hsince, hle.trans hcard⟩

/-- Keys that were used last are not forgotten while they fit into the capacity. -/
theorem mem_take_recentKeys_append {latest : List κ} (hroom : latest.toFinset.card ≤ capacity)
    (used : List κ) (h : key ∈ latest) : key ∈ (recentKeys (used ++ latest)).take capacity := by
  rcases exists_last_use h with ⟨before, since, rfl, hsince⟩
  have hsplit : used ++ (before ++ key :: since) = (used ++ before) ++ key :: since :=
    (List.append_assoc _ _ _).symm
  rw [mem_take_recentKeys_iff hsplit hsince]
  -- The keys used since then leave room for the key itself.
  have hfewer : since.toFinset ⊂ (before ++ key :: since).toFinset := by
    refine Finset.ssubset_iff.2 ⟨key, ?_, ?_⟩
    · rwa [List.mem_toFinset]
    · intro other hother
      simp only [Finset.mem_insert, List.mem_toFinset] at hother
      rcases hother with rfl | hmem <;> simp_all
  exact Nat.lt_of_lt_of_le (Finset.card_lt_card hfewer) hroom

end Distances

/-! ## Recency lists -/

namespace RecencyList

/-- Entries under the keys that a history of uses leaves in a list of some capacity. -/
def Follows {κ : Type u} {ν : Type v} [DecidableEq κ] (entries : RecencyList κ ν) (capacity : Nat)
    (used : List κ) : Prop :=
  entries.map (·.1) = (recentKeys used).take capacity

variable {κ : Type u} {ν : Type v} [DecidableEq κ] {entries : RecencyList κ ν} {capacity : Nat}
  {used : List κ} {key : κ}

theorem Follows.length_le (h : Follows entries capacity used) : entries.length ≤ capacity := by
  rw [← List.length_map, h]
  exact List.length_take_le capacity _

theorem Follows.mem_iff (h : Follows entries capacity used) :
    key ∈ entries.map (·.1) ↔ key ∈ (recentKeys used).take capacity := by
  rw [h]

theorem Follows.get (h : Follows entries capacity used) (hcapacity : 0 < capacity)
    (hheld : key ∈ entries.map (·.1)) : Follows (entries.get key).2 capacity (used ++ [key]) := by
  -- The list keeps its length, so that nothing is cut.
  have hlength : (key :: (entries.map (·.1)).erase key).length ≤ capacity := by
    rw [List.length_cons, List.length_erase_of_mem hheld, List.length_map]
    have := h.length_le
    have := List.length_pos_of_mem hheld
    omega
  rw [Follows, map_fst_get hheld, take_recentKeys_concat hcapacity, ← h,
    List.take_of_length_le hlength]

theorem Follows.set (h : Follows entries capacity used) (hcapacity : 0 < capacity) (key : κ)
    (value : ν) : Follows (entries.set capacity key value).2 capacity (used ++ [key]) := by
  rw [Follows, map_fst_set hcapacity h.length_le, h, take_recentKeys_concat hcapacity]

end RecencyList

end BuildTree
