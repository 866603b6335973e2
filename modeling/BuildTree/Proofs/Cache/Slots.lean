import BuildTree.Proofs.Cache.Recency
import Mathlib.Data.List.Induction

/-!
# Slots — the index and the links of a cache after any requests

What a run of requests leaves is a slab that can be walked: from the head along the older neighbours
every slot is met once, up to the tail, and from the tail back in the reverse order.  The index has
each slot under the key that is in it.  Every link is none or the number of a slot, and the numbers
stay below the word that stands for no slot where links are words.
-/

namespace BuildTree

universe u v

/-- A traversal that comes to its end: each step on the way succeeds and gives one item. -/
inductive Traverses {σ : Type u} {α : Type v} (ended : σ → Prop) (step : σ → Option (α × σ)) :
    σ → List α → Prop
  | done {place : σ} (h : ended place) : Traverses ended step place []
  | step {place next : σ} {item : α} {items : List α} (h : ¬ended place)
      (hstep : step place = some (item, next)) (rest : Traverses ended step next items) :
      Traverses ended step place (item :: items)

/-- The word that stands for no slot: the greatest one of 64 bits. -/
def noSlot : Nat := UInt64.size - 1

theorem ne_noSlot_of_lt {i size : Nat} (hi : i < size) (hsize : size ≤ noSlot) : i ≠ noSlot :=
  Nat.ne_of_lt (Nat.lt_of_lt_of_le hi hsize)

namespace LruCache

variable {κ : Type u} {ν : Type v} [Ord κ]

/-- One step along a link: the slot at a place and the place that the slot leads to.  There is none
from a place that no slot is at. -/
def stepAlong (cache : LruCache κ ν) (link : LruSlot κ ν → Option Nat) (place : Option Nat) :
    Option (Nat × Option Nat) :=
  place.bind fun i => (cache.slots[i]?).map fun slot => (i, link slot)

/-- What holds of index, slots and links between any two requests. -/
structure SlotInvariant [Std.TransOrd κ] (cache : LruCache κ ν) (order : List Nat) : Prop where
  size_index : cache.index.size = cache.slots.size
  size_le : cache.slots.size ≤ cache.capacity
  slot_of_index : ∀ (key : κ) (i : Nat), cache.index[key]? = some i →
    ∃ slot, cache.slots[i]? = some slot ∧ slot.key = key
  index_of_slot : ∀ i < cache.slots.size, ∃! key : κ, cache.index[key]? = some i
  head_eq_none_iff : cache.head = none ↔ cache.size = 0
  tail_eq_none_iff : cache.tail = none ↔ cache.size = 0
  /-- The order has every slot once. -/
  perm_range : order.Perm (List.range cache.slots.size)
  towardsOlder : Traverses (· = none) (cache.stepAlong (·.older)) cache.head order
  getLast?_eq : order.getLast? = cache.tail
  towardsNewer : Traverses (· = none) (cache.stepAlong (·.newer)) cache.tail order.reverse
  older_lt : ∀ slot ∈ cache.slots, ∀ i ∈ slot.older, i < cache.slots.size
  newer_lt : ∀ slot ∈ cache.slots, ∀ i ∈ slot.newer, i < cache.slots.size
  ne_noSlot : ∀ i < cache.slots.size, i ≠ noSlot

/-! ## Walks along the links -/

namespace Linked

variable {cache : LruCache κ ν} {order front back : List Nat} {i : Nat}

/-- From a slot of the list a step leads to where the link leads. -/
theorem stepAlong_eq (h : Linked cache order) {link : LruSlot κ ν → Option Nat}
    {target : Option Nat} (hi : i ∈ order) (hlink : (cache.slots[i]?).bind link = target) :
    cache.stepAlong link (some i) = some (i, target) := by
  have hlt : i < cache.slots.size := h.lt_size i hi
  have hslot : cache.slots[i]? = some cache.slots[i] := Array.getElem?_eq_getElem hlt
  rw [hslot, Option.bind_some] at hlink
  rw [stepAlong, Option.bind_some, hslot, Option.map_some, hlink]

/-- From a place on, the older neighbours are the slots behind it. -/
theorem traverses_older (h : Linked cache (front ++ back)) :
    Traverses (· = none) (cache.stepAlong (·.older)) back.head? back := by
  induction back generalizing front with
  | nil => exact .done rfl
  | cons i back ih =>
    have hbehind : Linked cache ((front ++ [i]) ++ back) := by rwa [List.append_assoc]
    have hstep := h.stepAlong_eq (by simp) h.olderOf_mem
    exact .step (Option.some_ne_none i) hstep (ih hbehind)

/-- From a place on, the newer neighbours are the slots in front of it, in the reverse order. -/
theorem traverses_newer (h : Linked cache (front ++ back)) :
    Traverses (· = none) (cache.stepAlong (·.newer)) front.getLast? front.reverse := by
  induction front using List.reverseRecOn generalizing back with
  | nil => exact .done rfl
  | append_singleton front i ih =>
    -- The slot at the cut is the first of the reverse order, and the walk goes on in front of it.
    rw [List.append_assoc] at h
    have hstep := h.stepAlong_eq (by simp) h.newerOf_mem
    rw [List.getLast?_concat, List.reverse_concat]
    exact .step (Option.some_ne_none i) hstep (ih h)

theorem olderOf_lt (h : Linked cache (front ++ i :: back)) :
    ∀ j ∈ cache.olderOf (some i), j < cache.slots.size := by
  intro j hj
  rw [h.olderOf_mem] at hj
  exact h.lt_size j (List.mem_append_right _ (List.mem_cons_of_mem i (List.mem_of_mem_head? hj)))

theorem newerOf_lt (h : Linked cache (front ++ i :: back)) :
    ∀ j ∈ cache.newerOf (some i), j < cache.slots.size := by
  intro j hj
  rw [h.newerOf_mem] at hj
  exact h.lt_size j (List.mem_append_left _ (List.mem_of_mem_getLast? hj))

end Linked

/-! ## Arranged caches -/

namespace Arranged

variable [Std.TransOrd κ] {cache : LruCache κ ν} {order : List Nat} {i : Nat}

theorem exists_split_of_lt (h : Arranged cache order) (hi : i < cache.slots.size) :
    ∃ front back, order = front ++ i :: back :=
  List.append_of_mem (h.complete i hi)

theorem slot_of_index (h : Arranged cache order) {key : κ} (hkey : cache.index[key]? = some i) :
    ∃ slot, cache.slots[i]? = some slot ∧ slot.key = key := by
  rcases (h.index_iff key i).1 hkey with ⟨value, hvalue⟩
  rcases Option.map_eq_some_iff.1 hvalue with ⟨slot, hslot, heq⟩
  exact ⟨slot, hslot, congrArg Prod.fst heq⟩

theorem index_of_slot (h : Arranged cache order) (hi : i < cache.slots.size) :
    ∃! key : κ, cache.index[key]? = some i := by
  have hslot : cache.slots[i]? = some cache.slots[i] := Array.getElem?_eq_getElem hi
  refine ⟨cache.slots[i].key, (h.index_iff _ i).2 ⟨cache.slots[i].value, ?_⟩, ?_⟩
  · rw [entryAt, hslot, Option.map_some]
  · -- Any key that leads to the slot is the one in it.
    intro key hkey
    rcases h.slot_of_index hkey with ⟨slot, hheld, rfl⟩
    rw [hslot] at hheld
    rw [Option.some.inj hheld]

theorem size_eq_zero_iff (h : Arranged cache order) : cache.size = 0 ↔ order = [] := by
  rw [size, h.size_index, ← h.size_eq, List.length_eq_zero_iff]

/-- An arranged cache with words enough for its capacity has all of the invariant. -/
theorem slotInvariant (h : Arranged cache order) (hword : cache.capacity ≤ noSlot) :
    SlotInvariant cache order where
  size_index := h.size_index
  size_le := h.size_le
  slot_of_index key i := h.slot_of_index
  index_of_slot i := h.index_of_slot
  head_eq_none_iff := by rw [h.head_eq, h.size_eq_zero_iff, List.head?_eq_none_iff]
  tail_eq_none_iff := by rw [h.tail_eq, h.size_eq_zero_iff, List.getLast?_eq_none_iff]
  perm_range := h.perm_range
  towardsOlder := by
    have hwhole : Linked cache ([] ++ order) := h.toLinked
    rw [h.head_eq]
    exact hwhole.traverses_older
  getLast?_eq := h.tail_eq.symm
  towardsNewer := by
    have hwhole : Linked cache (order ++ []) := by
      rw [List.append_nil]
      exact h.toLinked
    rw [h.tail_eq]
    exact hwhole.traverses_newer
  older_lt slot hslot j hj := by
    rcases Array.getElem_of_mem hslot with ⟨i, hi, rfl⟩
    rcases h.exists_split_of_lt hi with ⟨front, back, rfl⟩
    refine h.toLinked.olderOf_lt j ?_
    rwa [olderOf, Array.getElem?_eq_getElem hi]
  newer_lt slot hslot j hj := by
    rcases Array.getElem_of_mem hslot with ⟨i, hi, rfl⟩
    rcases h.exists_split_of_lt hi with ⟨front, back, rfl⟩
    refine h.toLinked.newerOf_lt j ?_
    rwa [newerOf, Array.getElem?_eq_getElem hi]
  ne_noSlot i hi := ne_noSlot_of_lt hi (Nat.le_trans h.size_le hword)

end Arranged

end LruCache
end BuildTree
