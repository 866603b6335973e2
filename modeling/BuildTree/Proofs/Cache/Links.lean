import BuildTree.Cache.Lru
import Mathlib.Data.List.Nodup
import Mathlib.Data.List.Perm.Subperm

/-!
# Recency links — the slots of a cache as one list

The head, the tail and the two links of each slot close a ring: `none` stands for the place in front
of the head and behind the tail.  A cache is linked along a list of slots if at every seam of that
list the two neighbours know each other.  Taking a slot out and putting it in at the head move the
slot in that list, and neither touches an entry.
-/

namespace BuildTree
namespace LruCache

universe u v

variable {κ : Type u} {ν : Type v} [Ord κ] {cache : LruCache κ ν}

/-! ## The ring -/

/-- What follows a place of the ring on the way from the head to the tail. -/
def olderOf (cache : LruCache κ ν) : Option Nat → Option Nat
  | none => cache.head
  | some i => (cache.slots[i]?).bind (·.older)

/-- What follows a place of the ring on the way from the tail to the head. -/
def newerOf (cache : LruCache κ ν) : Option Nat → Option Nat
  | none => cache.tail
  | some i => (cache.slots[i]?).bind (·.newer)

def setOlder (cache : LruCache κ ν) (place target : Option Nat) : LruCache κ ν :=
  match place with
  | none => { cache with head := target }
  | some i => cache.modifySlot i ({ · with older := target })

def setNewer (cache : LruCache κ ν) (place target : Option Nat) : LruCache κ ν :=
  match place with
  | none => { cache with tail := target }
  | some i => cache.modifySlot i ({ · with newer := target })

section Writes

variable {place target p : Option Nat} {i : Nat} {f : LruSlot κ ν → LruSlot κ ν}

theorem olderOf_modifySlot :
    (cache.modifySlot i f).olderOf p =
      if p = some i then (cache.slots[i]?).bind fun slot => (f slot).older
      else cache.olderOf p := by
  cases p with
  | none => rfl
  | some j =>
    simp only [olderOf, modifySlot, Array.getElem?_modify, Option.some.injEq]
    by_cases hij : j = i
    · subst hij
      rw [if_pos rfl, if_pos rfl, Option.bind_map]
      rfl
    · simp [hij, Ne.symm hij]

theorem newerOf_modifySlot :
    (cache.modifySlot i f).newerOf p =
      if p = some i then (cache.slots[i]?).bind fun slot => (f slot).newer
      else cache.newerOf p := by
  cases p with
  | none => rfl
  | some j =>
    simp only [newerOf, modifySlot, Array.getElem?_modify, Option.some.injEq]
    by_cases hij : j = i
    · subst hij
      rw [if_pos rfl, if_pos rfl, Option.bind_map]
      rfl
    · simp [hij, Ne.symm hij]

/-- Changing a slot but for its links changes no link. -/
theorem olderOf_modifySlot_of_eq (h : ∀ slot, (f slot).older = slot.older) :
    (cache.modifySlot i f).olderOf p = cache.olderOf p := by
  rw [olderOf_modifySlot]
  split
  · rename_i hp
    simp only [hp, olderOf, h]
  · rfl

theorem newerOf_modifySlot_of_eq (h : ∀ slot, (f slot).newer = slot.newer) :
    (cache.modifySlot i f).newerOf p = cache.newerOf p := by
  rw [newerOf_modifySlot]
  split
  · rename_i hp
    simp only [hp, newerOf, h]
  · rfl

theorem olderOf_setOlder (h : ∀ i ∈ place, i < cache.slots.size) :
    (cache.setOlder place target).olderOf p = if p = place then target else cache.olderOf p := by
  cases place with
  | none => cases p <;> rfl
  | some i =>
    have hi : i < cache.slots.size := h i rfl
    simp [setOlder, olderOf_modifySlot, hi]

theorem newerOf_setNewer (h : ∀ i ∈ place, i < cache.slots.size) :
    (cache.setNewer place target).newerOf p = if p = place then target else cache.newerOf p := by
  cases place with
  | none => cases p <;> rfl
  | some i =>
    have hi : i < cache.slots.size := h i rfl
    simp [setNewer, newerOf_modifySlot, hi]

@[simp] theorem newerOf_setOlder : (cache.setOlder place target).newerOf p = cache.newerOf p := by
  cases place with
  | none => cases p <;> rfl
  | some i => exact newerOf_modifySlot_of_eq fun _ => rfl

@[simp] theorem olderOf_setNewer : (cache.setNewer place target).olderOf p = cache.olderOf p := by
  cases place with
  | none => cases p <;> rfl
  | some i => exact olderOf_modifySlot_of_eq fun _ => rfl

@[simp] theorem size_slots_modifySlot : (cache.modifySlot i f).slots.size = cache.slots.size := by
  simp [modifySlot]

@[simp] theorem size_slots_setOlder :
    (cache.setOlder place target).slots.size = cache.slots.size := by
  cases place with
  | none => rfl
  | some i => exact size_slots_modifySlot

@[simp] theorem size_slots_setNewer :
    (cache.setNewer place target).slots.size = cache.slots.size := by
  cases place with
  | none => rfl
  | some i => exact size_slots_modifySlot

end Writes

/-! ## Entries -/

/-- The entry in a slot. -/
def entryAt (cache : LruCache κ ν) (i : Nat) : Option (κ × ν) :=
  (cache.slots[i]?).map fun slot => (slot.key, slot.value)

section Entries

variable {i j : Nat} {entry : κ × ν}

theorem entryAt_lt (h : cache.entryAt i = some entry) : i < cache.slots.size := by
  rcases Option.map_eq_some_iff.1 h with ⟨slot, hslot, -⟩
  exact (Array.getElem?_eq_some_iff.1 hslot).1

theorem entryAt_modifySlot {f : LruSlot κ ν → LruSlot κ ν} :
    (cache.modifySlot i f).entryAt j =
      if j = i then (cache.slots[i]?).map fun slot => ((f slot).key, (f slot).value)
      else cache.entryAt j := by
  simp only [entryAt, modifySlot, Array.getElem?_modify]
  by_cases hij : j = i
  · simp [hij, Option.map_map, Function.comp_def]
  · simp [hij, Ne.symm hij]

/-- A change to one slot leaves the entries of the other slots. -/
theorem filterMap_entryAt_of_notMem {other : LruCache κ ν} {new? : Option (κ × ν)}
    {order : List Nat}
    (hentry : ∀ j, other.entryAt j = if j = i then new? else cache.entryAt j) (hi : i ∉ order) :
    order.filterMap other.entryAt = order.filterMap cache.entryAt := by
  apply List.filterMap_congr
  intro j hj
  rw [hentry, if_neg]
  rintro rfl
  exact hi hj

end Entries

/-- Two caches that differ in nothing but their links. -/
structure SameEntries (cache other : LruCache κ ν) : Prop where
  capacity : other.capacity = cache.capacity
  index : other.index = cache.index
  size : other.slots.size = cache.slots.size
  entryAt : ∀ i, other.entryAt i = cache.entryAt i

namespace SameEntries

variable {other another : LruCache κ ν}

theorem refl (cache : LruCache κ ν) : SameEntries cache cache :=
  ⟨rfl, rfl, rfl, fun _ => rfl⟩

theorem trans (h : SameEntries cache other) (h' : SameEntries other another) :
    SameEntries cache another where
  capacity := h'.capacity.trans h.capacity
  index := h'.index.trans h.index
  size := h'.size.trans h.size
  entryAt i := (h'.entryAt i).trans (h.entryAt i)

/-- Changing the links of a slot changes no entry. -/
theorem modifySlot {i : Nat} {f : LruSlot κ ν → LruSlot κ ν} (hkey : ∀ slot, (f slot).key = slot.key)
    (hvalue : ∀ slot, (f slot).value = slot.value) :
    SameEntries cache (cache.modifySlot i f) where
  capacity := rfl
  index := rfl
  size := size_slots_modifySlot
  entryAt j := by
    rw [entryAt_modifySlot]
    split
    · rename_i hij
      simp only [hij, LruCache.entryAt, hkey, hvalue]
    · rfl

theorem setOlder (place target : Option Nat) : SameEntries cache (cache.setOlder place target) := by
  cases place with
  | none => exact ⟨rfl, rfl, rfl, fun _ => rfl⟩
  | some i => exact modifySlot (fun _ => rfl) fun _ => rfl

theorem setNewer (place target : Option Nat) : SameEntries cache (cache.setNewer place target) := by
  cases place with
  | none => exact ⟨rfl, rfl, rfl, fun _ => rfl⟩
  | some i => exact modifySlot (fun _ => rfl) fun _ => rfl

end SameEntries

/-! ## Taking a slot out and putting it in -/

section Moves

variable {i : Nat}

/-- Taking a slot out joins its two neighbours and then clears its own links. -/
theorem detach_eq (h : i < cache.slots.size) :
    cache.detach i =
      ((cache.setOlder (cache.newerOf (some i)) (cache.olderOf (some i))).setNewer
        (cache.olderOf (some i)) (cache.newerOf (some i))).modifySlot i
          ({ · with newer := none, older := none }) := by
  have hslot : cache.slots[i]? = some cache.slots[i] := Array.getElem?_eq_getElem h
  simp only [detach, newerOf, olderOf, hslot, Option.bind_some]
  cases cache.slots[i].newer <;> cases cache.slots[i].older <;> rfl

/-- Putting a slot in sets its own links and then those of the two ends that it comes between. -/
theorem attachNewest_eq :
    cache.attachNewest i =
      ((cache.modifySlot i ({ · with newer := none, older := cache.head })).setNewer
        cache.head (some i)).setOlder none (some i) := by
  rw [attachNewest]
  cases cache.head <;> rfl

theorem SameEntries.detach (cache : LruCache κ ν) (i : Nat) :
    SameEntries cache (cache.detach i) := by
  by_cases hi : i < cache.slots.size
  · rw [detach_eq hi]
    exact ((SameEntries.setOlder _ _).trans (SameEntries.setNewer _ _)).trans
      (SameEntries.modifySlot (fun _ => rfl) fun _ => rfl)
  · have hnone : cache.slots[i]? = none := Array.getElem?_eq_none (Nat.le_of_not_lt hi)
    simp only [LruCache.detach, hnone]
    exact SameEntries.refl cache

theorem SameEntries.attachNewest (cache : LruCache κ ν) (i : Nat) :
    SameEntries cache (cache.attachNewest i) := by
  rw [attachNewest_eq]
  have hown : SameEntries cache
      (cache.modifySlot i ({ · with newer := none, older := cache.head })) :=
    SameEntries.modifySlot (fun _ => rfl) fun _ => rfl
  exact (hown.trans (SameEntries.setNewer _ _)).trans (SameEntries.setOlder _ _)

theorem SameEntries.touch (cache : LruCache κ ν) (i : Nat) :
    SameEntries cache (cache.touch i) := by
  rw [LruCache.touch]
  split
  · exact SameEntries.refl cache
  · exact (SameEntries.detach cache i).trans (SameEntries.attachNewest _ i)

end Moves

/-! ## Linked lists of slots -/

section Ends

variable {α : Type*} {front back f b l r : List α} {a : α}

theorem head?_ne_some (h : a ∉ l) : l.head? ≠ some a := by
  intro heq
  exact h (List.mem_of_mem_head? heq)

theorem getLast?_ne_some (h : a ∉ l) : l.getLast? ≠ some a := by
  intro heq
  exact h (List.mem_of_mem_getLast? heq)

theorem getLast?_append_ne (hne : r ≠ []) (h : ∀ a ∈ l, a ∉ r) : (l ++ r).getLast? ≠ l.getLast? := by
  intro heq
  rw [List.getLast?_append_of_ne_nil l hne, List.getLast?_eq_some_getLast hne] at heq
  exact h _ (List.mem_of_getLast? heq.symm) (List.getLast_mem hne)

/-- Of two cuts through a list one is the other, or lies on either side of it. -/
theorem cut_cases (h : front ++ back = f ++ b) :
    (f = front ∧ b = back) ∨ (∃ a m, f = front ++ a :: m ∧ back = a :: m ++ b) ∨
      ∃ a m, front = f ++ a :: m ∧ b = a :: m ++ back := by
  rcases List.append_eq_append_iff.1 h with ⟨m, rfl, rfl⟩ | ⟨m, rfl, rfl⟩
  · cases m with
    | nil => exact Or.inl ⟨List.append_nil front, rfl⟩
    | cons a m => exact Or.inr (Or.inl ⟨a, m, rfl, rfl⟩)
  · cases m with
    | nil => exact Or.inl ⟨(List.append_nil f).symm, rfl⟩
    | cons a m => exact Or.inr (Or.inr ⟨a, m, rfl, rfl⟩)

end Ends

/-- A cache whose links run along a list of slots, the most recently used one first. -/
structure Linked (cache : LruCache κ ν) (order : List Nat) : Prop where
  nodup : order.Nodup
  lt_size : ∀ i ∈ order, i < cache.slots.size
  /-- Where the list is cut, the place in front of the cut and the one behind it know each other. -/
  seam : ∀ front back, order = front ++ back →
    cache.olderOf front.getLast? = back.head? ∧ cache.newerOf back.head? = front.getLast?

namespace Linked

variable {order front back : List Nat} {i : Nat}

theorem of_links {other : LruCache κ ν} (h : Linked cache order)
    (hsize : cache.slots.size ≤ other.slots.size) (holder : ∀ p, other.olderOf p = cache.olderOf p)
    (hnewer : ∀ p, other.newerOf p = cache.newerOf p) : Linked other order where
  nodup := h.nodup
  lt_size i hi := Nat.lt_of_lt_of_le (h.lt_size i hi) hsize
  seam front back hsplit := by
    rw [holder, hnewer]
    exact h.seam front back hsplit

theorem head_eq (h : Linked cache order) : cache.head = order.head? :=
  (h.seam [] order rfl).1

theorem tail_eq (h : Linked cache order) : cache.tail = order.getLast? :=
  (h.seam order [] (List.append_nil order).symm).2

theorem head_lt (h : Linked cache order) : ∀ j ∈ cache.head, j < cache.slots.size := by
  intro j hj
  rw [h.head_eq] at hj
  exact h.lt_size j (List.mem_of_mem_head? hj)

theorem newerOf_mem (h : Linked cache (front ++ i :: back)) :
    cache.newerOf (some i) = front.getLast? :=
  (h.seam front (i :: back) rfl).2

theorem olderOf_mem (h : Linked cache (front ++ i :: back)) :
    cache.olderOf (some i) = back.head? := by
  have hseam := (h.seam (front ++ [i]) back (by simp)).1
  rwa [List.getLast?_concat] at hseam

/-- Where the links of the ring lead once a slot is taken out. -/
theorem olderOf_detach (h : Linked cache (front ++ i :: back)) (p : Option Nat) :
    (cache.detach i).olderOf p =
      if p = some i then none else if p = front.getLast? then back.head? else cache.olderOf p := by
  have hi : i < cache.slots.size := h.lt_size i (by simp)
  have hnewer : ∀ j ∈ front.getLast?, j < cache.slots.size := by
    intro j hj
    exact h.lt_size j (List.mem_append_left _ (List.mem_of_mem_getLast? hj))
  rw [detach_eq hi, h.newerOf_mem, h.olderOf_mem, olderOf_modifySlot, olderOf_setNewer,
    olderOf_setOlder hnewer]
  split
  · rw [Option.bind_eq_none_iff]
    exact fun slot _ => rfl
  · rfl

theorem newerOf_detach (h : Linked cache (front ++ i :: back)) (p : Option Nat) :
    (cache.detach i).newerOf p =
      if p = some i then none else if p = back.head? then front.getLast? else cache.newerOf p := by
  have hi : i < cache.slots.size := h.lt_size i (by simp)
  have holder : ∀ j ∈ back.head?, j < (cache.setOlder front.getLast? back.head?).slots.size := by
    intro j hj
    rw [size_slots_setOlder]
    exact h.lt_size j
      (List.mem_append_right _ (List.mem_cons_of_mem i (List.mem_of_mem_head? hj)))
  rw [detach_eq hi, h.newerOf_mem, h.olderOf_mem, newerOf_modifySlot, newerOf_setNewer holder,
    newerOf_setOlder]
  split
  · rw [Option.bind_eq_none_iff]
    exact fun slot _ => rfl
  · rfl

theorem detach (h : Linked cache (front ++ i :: back)) : Linked (cache.detach i) (front ++ back) := by
  rcases List.nodup_append.1 h.nodup with ⟨hfront, hrest, hapart⟩
  rcases List.nodup_cons.1 hrest with ⟨hiback, hback⟩
  have hifront : i ∉ front := fun hmem => hapart i hmem i List.mem_cons_self rfl
  have hdisjoint : ∀ j ∈ front, j ∉ back := by
    intro j hj hj'
    exact hapart j hj j (List.mem_cons_of_mem i hj') rfl
  refine ⟨?_, ?_, ?_⟩
  · refine List.nodup_append.2 ⟨hfront, hback, ?_⟩
    rintro j hj k hk rfl
    exact hdisjoint j hj hk
  · intro j hj
    rw [(SameEntries.detach cache i).size]
    apply h.lt_size
    rcases List.mem_append.1 hj with hmem | hmem
    · exact List.mem_append_left _ hmem
    · exact List.mem_append_right _ (List.mem_cons_of_mem i hmem)
  · intro f b hsplit
    have hi : i ∉ f ++ b := by
      rw [← hsplit]
      exact List.not_mem_append hifront hiback
    have hif : i ∉ f := fun hmem => hi (List.mem_append_left b hmem)
    have hib : i ∉ b := fun hmem => hi (List.mem_append_right f hmem)
    rw [h.olderOf_detach, h.newerOf_detach, if_neg (getLast?_ne_some hif),
      if_neg (head?_ne_some hib)]
    rcases cut_cases hsplit with ⟨rfl, rfl⟩ | ⟨j, m, rfl, rfl⟩ | ⟨j, m, rfl, rfl⟩
    · -- The cut is where the slot was, so its neighbours meet here.
      rw [if_pos rfl, if_pos rfl]
      exact ⟨rfl, rfl⟩
    · -- The cut is on the older side, and so it was before.
      have hseam := h.seam (front ++ i :: j :: m) b (by simp)
      have hlast : (front ++ j :: m).getLast? ≠ front.getLast? := by
        refine getLast?_append_ne (List.cons_ne_nil j m) ?_
        intro k hk hk'
        exact hdisjoint k hk (List.mem_append_left b hk')
      have hhead : b.head? ≠ some j := by
        apply head?_ne_some
        intro hj
        exact List.disjoint_of_nodup_append hback List.mem_cons_self hj
      rw [if_neg hlast, List.cons_append, List.head?_cons, if_neg hhead]
      rwa [List.getLast?_append_of_ne_nil front (List.cons_ne_nil i _), List.getLast?_cons_cons,
        ← List.getLast?_append_of_ne_nil front (List.cons_ne_nil j m)] at hseam
    · -- The cut is on the newer side.
      have hseam := h.seam f (j :: m ++ i :: back) (by simp)
      have hlast : (f ++ j :: m).getLast? ≠ f.getLast? := by
        refine getLast?_append_ne (List.cons_ne_nil j m) ?_
        intro k hk hk'
        exact List.disjoint_of_nodup_append hfront hk hk'
      have hhead : back.head? ≠ some j := by
        apply head?_ne_some
        exact hdisjoint j (List.mem_append_right f List.mem_cons_self)
      rw [if_neg hlast.symm, List.cons_append, List.head?_cons, if_neg hhead.symm]
      exact hseam

/-- Where the links of the ring lead once a slot is put in at the head. -/
theorem olderOf_attachNewest (hi : i < cache.slots.size) (p : Option Nat) :
    (cache.attachNewest i).olderOf p =
      if p = none then some i else if p = some i then cache.head else cache.olderOf p := by
  have hnone : ∀ j ∈ (none : Option Nat), j < ((cache.modifySlot i
      ({ · with newer := none, older := cache.head })).setNewer cache.head (some i)).slots.size := by
    intro j hj
    cases hj
  rw [attachNewest_eq, olderOf_setOlder hnone, olderOf_setNewer, olderOf_modifySlot]
  simp [hi]

theorem newerOf_attachNewest (hi : i < cache.slots.size)
    (hhead : ∀ j ∈ cache.head, j < cache.slots.size) (p : Option Nat) :
    (cache.attachNewest i).newerOf p =
      if p = cache.head then some i else if p = some i then none else cache.newerOf p := by
  have hhead' : ∀ j ∈ cache.head, j < (cache.modifySlot i
      ({ · with newer := none, older := cache.head })).slots.size := by
    intro j hj
    rw [size_slots_modifySlot]
    exact hhead j hj
  rw [attachNewest_eq, newerOf_setOlder, newerOf_setNewer hhead', newerOf_modifySlot]
  simp [hi]

theorem attachNewest (h : Linked cache order) (hi : i < cache.slots.size) (hnew : i ∉ order) :
    Linked (cache.attachNewest i) (i :: order) := by
  have hhead := h.head_eq
  refine ⟨List.nodup_cons.2 ⟨hnew, h.nodup⟩, ?_, ?_⟩
  · intro j hj
    rw [(SameEntries.attachNewest cache i).size]
    rcases List.mem_cons.1 hj with rfl | hmem
    · exact hi
    · exact h.lt_size j hmem
  · intro f b hsplit
    rw [olderOf_attachNewest hi, newerOf_attachNewest hi h.head_lt]
    cases f with
    | nil =>
      -- In front of the slot that was put in is the end of the ring.
      obtain rfl : b = i :: order := hsplit.symm
      have hne : some i ≠ cache.head := by
        rw [hhead]
        exact (head?_ne_some hnew).symm
      simp [hne]
    | cons j f =>
      obtain ⟨rfl, rfl⟩ : i = j ∧ order = f ++ b := List.cons.inj hsplit
      cases f with
      | nil => simp [hhead]
      | cons j f =>
        -- Further back the list is what it was.
        have hseam := h.seam (j :: f) b rfl
        have hif : i ∉ j :: f := fun hmem => hnew (List.mem_append_left b hmem)
        have hib : i ∉ b := fun hmem => hnew (List.mem_append_right _ hmem)
        have hhead' : b.head? ≠ some j := by
          apply head?_ne_some
          intro hj
          exact List.disjoint_of_nodup_append h.nodup List.mem_cons_self hj
        have hlast : (j :: f).getLast? ≠ none := by simp
        rw [List.getLast?_cons_cons, if_neg hlast, if_neg (getLast?_ne_some hif), hhead,
          List.cons_append, List.head?_cons, if_neg hhead', if_neg (head?_ne_some hib)]
        exact hseam

/-- Touching a slot moves it to the head of the list. -/
theorem touch (h : Linked cache (front ++ i :: back)) :
    Linked (cache.touch i) (i :: (front ++ back)) := by
  have hmem : i ∉ front ++ back := (List.nodup_middle.1 h.nodup).notMem
  have hi : i < cache.slots.size := h.lt_size i (by simp)
  rw [LruCache.touch]
  split
  · -- The slot is at the head already, so nothing is in front of it.
    rename_i hhead
    cases front with
    | nil => exact h
    | cons j front =>
      rw [h.head_eq] at hhead
      exact absurd (by simp [Option.some.inj hhead]) hmem
  · refine h.detach.attachNewest ?_ hmem
    rw [(SameEntries.detach cache i).size]
    exact hi

theorem length_le (h : Linked cache order) : order.length ≤ cache.slots.size := by
  have hsubset : order ⊆ List.range cache.slots.size := by
    intro i hi
    exact List.mem_range.2 (h.lt_size i hi)
  simpa using (List.subperm_of_subset h.nodup hsubset).length_le

/-- The walk from a place on towards the tail meets the entries behind that place. -/
theorem entriesFrom_eq (h : Linked cache (front ++ back)) {fuel : Nat} (hfuel : back.length ≤ fuel) :
    cache.entriesFrom fuel back.head? = back.filterMap cache.entryAt := by
  induction back generalizing front fuel with
  | nil => cases fuel <;> rfl
  | cons i back ih =>
    obtain ⟨fuel, rfl⟩ : ∃ n, fuel = n + 1 := Nat.exists_eq_succ_of_ne_zero (by simp at hfuel; omega)
    have hi : i < cache.slots.size := h.lt_size i (by simp)
    have hslot : cache.slots[i]? = some cache.slots[i] := Array.getElem?_eq_getElem hi
    have holder : cache.slots[i].older = back.head? := by
      have hplace := h.olderOf_mem
      rwa [olderOf, hslot, Option.bind_some] at hplace
    have hbehind : Linked cache ((front ++ [i]) ++ back) := by rwa [List.append_assoc]
    have hrest := ih hbehind (Nat.le_of_succ_le_succ hfuel)
    simp only [List.head?_cons, entriesFrom, hslot, holder, hrest]
    simp [entryAt, hslot]

theorem entries_eq (h : Linked cache order) : cache.entries = order.filterMap cache.entryAt := by
  have hwhole : Linked cache ([] ++ order) := h
  rw [entries, h.head_eq, hwhole.entriesFrom_eq h.length_le]

end Linked

end LruCache
end BuildTree
