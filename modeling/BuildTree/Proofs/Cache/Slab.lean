import BuildTree.Proofs.Cache.Slots

/-!
# Slabs — caches whose links are words

A slab is a cache in machine words: its links are slot numbers, and one word stands for no slot.
Every access to a slot can fail, and then there is no answer.  A cache written as a slab answers as
the cache does and becomes what the cache becomes, so no access ever fails and no slot is taken for
the end of the list.
-/

namespace BuildTree

universe u v

/-- One slot of a slab: an entry and its neighbours in the recency list. -/
structure SlabSlot (κ : Type u) (ν : Type v) where
  key : κ
  value : ν
  newer : Nat
  older : Nat

/-- A bounded map whose links are words. -/
structure Slab (κ : Type u) (ν : Type v) [Ord κ] where
  capacity : Nat
  index : Std.ExtTreeMap κ Nat
  slots : Array (SlabSlot κ ν)
  head : Nat
  tail : Nat

namespace Slab

variable {κ : Type u} {ν : Type v} [Ord κ]

def empty (capacity : Nat) : Slab κ ν :=
  { capacity, index := ∅, slots := #[], head := noSlot, tail := noSlot }

/-- Changes a slot that is there. -/
def modifySlot? (slab : Slab κ ν) (i : Nat) (f : SlabSlot κ ν → SlabSlot κ ν) :
    Option (Slab κ ν) :=
  if i < slab.slots.size then some { slab with slots := slab.slots.modify i f } else none

/-- Lets a slot, or the head of the list, lead to a place. -/
def setOlder? (slab : Slab κ ν) (word target : Nat) : Option (Slab κ ν) :=
  if word = noSlot then some { slab with head := target }
  else slab.modifySlot? word ({ · with older := target })

/-- Lets a slot, or the tail of the list, lead back to a place. -/
def setNewer? (slab : Slab κ ν) (word target : Nat) : Option (Slab κ ν) :=
  if word = noSlot then some { slab with tail := target }
  else slab.modifySlot? word ({ · with newer := target })

/-- Takes a slot out of the list. -/
def detach? (slab : Slab κ ν) (i : Nat) : Option (Slab κ ν) := do
  let slot ← slab.slots[i]?
  let slab ← slab.setOlder? slot.newer slot.older
  let slab ← slab.setNewer? slot.older slot.newer
  slab.modifySlot? i ({ · with newer := noSlot, older := noSlot })

/-- Puts a slot in at the head. -/
def attachNewest? (slab : Slab κ ν) (i : Nat) : Option (Slab κ ν) := do
  let head := slab.head
  let slab ← slab.modifySlot? i ({ · with newer := noSlot, older := head })
  let slab ← slab.setNewer? head i
  return { slab with head := i }

/-- Moves a slot to the head. -/
def touch? (slab : Slab κ ν) (i : Nat) : Option (Slab κ ν) :=
  if slab.head = i then some slab else (slab.detach? i).bind (·.attachNewest? i)

variable [Std.TransOrd κ]

/-- The value of a key, which counts as a use. -/
def get? (slab : Slab κ ν) (key : κ) : Option (Option ν × Slab κ ν) :=
  match slab.index[key]? with
  | none => some (none, slab)
  | some i => do
      let slab ← slab.touch? i
      let slot ← slab.slots[i]?
      return (some slot.value, slab)

/-- Gives a key a value, in a slot of its own or in that of the entry used least recently. -/
def set? (slab : Slab κ ν) (key : κ) (value : ν) : Option (Option (κ × ν) × Slab κ ν) :=
  match slab.index[key]? with
  | some i => do
      let slab ← slab.modifySlot? i ({ · with value })
      let slab ← slab.touch? i
      return (none, slab)
  | none =>
      if slab.index.size < slab.capacity then do
        let i := slab.slots.size
        let slab := { slab with
          slots := slab.slots.push { key, value, newer := noSlot, older := noSlot }
          index := slab.index.insert key i }
        let slab ← slab.attachNewest? i
        return (none, slab)
      else do
        let i := slab.tail
        let slab ← slab.detach? i
        let old ← slab.slots[i]?
        let slab ← slab.modifySlot? i ({ · with key, value })
        let slab := { slab with index := (slab.index.erase old.key).insert key i }
        let slab ← slab.attachNewest? i
        return (some (old.key, old.value), slab)

def answer? (slab : Slab κ ν) : CacheRequest κ ν → Option (CacheAnswer κ ν × Slab κ ν)
  | .set key value => (slab.set? key value).map (Prod.map .evicted id)
  | .get key => (slab.get? key).map (Prod.map .found id)
  | .contains key => some (.present (slab.index.contains key), slab)

/-- The answers to requests one after the other, and the slab afterwards. -/
def run? (slab : Slab κ ν) : List (CacheRequest κ ν) → Option (List (CacheAnswer κ ν) × Slab κ ν)
  | [] => some ([], slab)
  | request :: requests => do
      let (answer, slab) ← slab.answer? request
      let (answers, slab) ← slab.run? requests
      return (answer :: answers, slab)

/-- One step of the walk that lists the keys: the key in a slot and the word behind it. -/
def stepKey? (slab : Slab κ ν) (word : Nat) : Option (κ × Nat) :=
  (slab.slots[word]?).map fun slot => (slot.key, slot.older)

end Slab

variable {κ : Type u} {ν : Type v} [Ord κ]

/-- A slot with its links as words. -/
def LruSlot.toSlab (slot : LruSlot κ ν) : SlabSlot κ ν :=
  { key := slot.key
    value := slot.value
    newer := slot.newer.getD noSlot
    older := slot.older.getD noSlot }

namespace LruCache

/-- A cache with its links as words. -/
def toSlab (cache : LruCache κ ν) : Slab κ ν :=
  { capacity := cache.capacity
    index := cache.index
    slots := cache.slots.map LruSlot.toSlab
    head := cache.head.getD noSlot
    tail := cache.tail.getD noSlot }

theorem toSlab_empty (capacity : Nat) :
    (LruCache.empty capacity : LruCache κ ν).toSlab = Slab.empty capacity := by
  simp only [toSlab, LruCache.empty, Array.map_empty]
  rfl

section Writes

variable {cache : LruCache κ ν} {place target : Option Nat} {i : Nat}

@[simp] theorem size_slots_toSlab (cache : LruCache κ ν) :
    cache.toSlab.slots.size = cache.slots.size :=
  Array.size_map ..

theorem getElem?_slots_toSlab (cache : LruCache κ ν) (i : Nat) :
    cache.toSlab.slots[i]? = (cache.slots[i]?).map LruSlot.toSlab :=
  Array.getElem?_map ..

theorem modifySlot?_toSlab {f : LruSlot κ ν → LruSlot κ ν} {g : SlabSlot κ ν → SlabSlot κ ν}
    (hi : i < cache.slots.size) (h : ∀ slot : LruSlot κ ν, g slot.toSlab = (f slot).toSlab) :
    cache.toSlab.modifySlot? i g = some (cache.modifySlot i f).toSlab := by
  have hslots : (cache.slots.map LruSlot.toSlab).modify i g =
      (cache.slots.modify i f).map LruSlot.toSlab := by
    apply Array.ext_getElem?
    intro j
    rw [Array.getElem?_modify, Array.getElem?_map, Array.getElem?_map, Array.getElem?_modify]
    split
    · rw [Option.map_map, Option.map_map]
      exact congrArg (Option.map · cache.slots[j]?) (funext h)
    · rfl
  rw [Slab.modifySlot?, if_pos (by rwa [size_slots_toSlab])]
  exact congrArg (fun slots => some { cache.toSlab with slots }) hslots

theorem setOlder?_toSlab (hsize : cache.slots.size ≤ noSlot)
    (hplace : ∀ i ∈ place, i < cache.slots.size) :
    cache.toSlab.setOlder? (place.getD noSlot) (target.getD noSlot) =
      some (cache.setOlder place target).toSlab := by
  cases place with
  | none => rfl
  | some i =>
    have hi : i < cache.slots.size := hplace i rfl
    rw [Option.getD_some, Slab.setOlder?, if_neg (ne_noSlot_of_lt hi hsize)]
    exact modifySlot?_toSlab hi fun _ => rfl

theorem setNewer?_toSlab (hsize : cache.slots.size ≤ noSlot)
    (hplace : ∀ i ∈ place, i < cache.slots.size) :
    cache.toSlab.setNewer? (place.getD noSlot) (target.getD noSlot) =
      some (cache.setNewer place target).toSlab := by
  cases place with
  | none => rfl
  | some i =>
    have hi : i < cache.slots.size := hplace i rfl
    rw [Option.getD_some, Slab.setNewer?, if_neg (ne_noSlot_of_lt hi hsize)]
    exact modifySlot?_toSlab hi fun _ => rfl

end Writes

/-! ## Taking a slot out and putting it in -/

section Moves

variable {cache : LruCache κ ν} {order front back : List Nat} {i : Nat}

theorem detach?_toSlab (h : Linked cache (front ++ i :: back)) (hsize : cache.slots.size ≤ noSlot) :
    cache.toSlab.detach? i = some (cache.detach i).toSlab := by
  have hi : i < cache.slots.size := h.lt_size i (by simp)
  have hslot : cache.slots[i]? = some cache.slots[i] := Array.getElem?_eq_getElem hi
  have hnewer : cache.newerOf (some i) = cache.slots[i].newer := by
    rw [newerOf, hslot, Option.bind_some]
  have holder : cache.olderOf (some i) = cache.slots[i].older := by
    rw [olderOf, hslot, Option.bind_some]
  -- Both neighbours are slots or none, so the two writes that join them reach their places.
  have hnewerLt := h.newerOf_lt
  have holderLt := h.olderOf_lt
  rw [hnewer] at hnewerLt
  rw [holder] at holderLt
  rw [detach_eq hi, hnewer, holder, Slab.detach?, getElem?_slots_toSlab, hslot]
  simp only [Option.map_some, Option.bind_eq_bind, Option.bind_some, LruSlot.toSlab]
  rw [setOlder?_toSlab hsize hnewerLt, Option.bind_some,
    setNewer?_toSlab (by rwa [size_slots_setOlder]) (by rwa [size_slots_setOlder]),
    Option.bind_some]
  exact modifySlot?_toSlab (by rwa [size_slots_setNewer, size_slots_setOlder]) fun _ => rfl

theorem attachNewest?_toSlab (h : Linked cache order) (hsize : cache.slots.size ≤ noSlot)
    (hi : i < cache.slots.size) :
    cache.toSlab.attachNewest? i = some (cache.attachNewest i).toSlab := by
  have hown : cache.toSlab.modifySlot? i
      ({ · with newer := noSlot, older := cache.toSlab.head }) =
      some (cache.modifySlot i ({ · with newer := none, older := cache.head })).toSlab :=
    modifySlot?_toSlab hi fun _ => rfl
  have hhead : ((cache.modifySlot i ({ · with newer := none, older := cache.head })).toSlab).setNewer?
      (cache.head.getD noSlot) ((some i).getD noSlot) = some ((cache.modifySlot i
        ({ · with newer := none, older := cache.head })).setNewer cache.head (some i)).toSlab :=
    setNewer?_toSlab (by rwa [size_slots_modifySlot]) (by rw [size_slots_modifySlot]; exact h.head_lt)
  rw [attachNewest_eq, Slab.attachNewest?]
  simp only [Option.bind_eq_bind, hown, Option.bind_some]
  exact (congrArg (Option.bind · _) hhead).trans rfl

theorem touch?_toSlab (h : Linked cache (front ++ i :: back)) (hsize : cache.slots.size ≤ noSlot) :
    cache.toSlab.touch? i = some (cache.touch i).toSlab := by
  have hi : i < cache.slots.size := h.lt_size i (by simp)
  have hne : i ≠ noSlot := ne_noSlot_of_lt hi hsize
  -- The word at the head is the number of the slot only if the slot is at the head.
  have hhead : cache.toSlab.head = i ↔ cache.head = some i := by
    rw [toSlab]
    cases cache.head with
    | none => simpa using hne.symm
    | some j => simp
  rw [Slab.touch?, LruCache.touch]
  by_cases hfirst : cache.head = some i
  · rw [if_pos (hhead.2 hfirst), if_pos hfirst]
  · have hdetached := (SameEntries.detach cache i).size
    rw [if_neg (mt hhead.1 hfirst), if_neg hfirst, detach?_toSlab h hsize, Option.bind_some]
    exact attachNewest?_toSlab h.detach (by rwa [hdetached]) (by rwa [hdetached])

end Moves

/-! ## Listing the keys -/

section Keys

variable {cache : LruCache κ ν} {order : List Nat}

/-- The walk that lists the keys meets the entries behind a place, up to the word for no slot. -/
theorem traverses_keys (hsize : cache.slots.size ≤ noSlot) {place : Option Nat}
    (h : Traverses (· = none) (cache.stepAlong (·.older)) place order) :
    Traverses (· = noSlot) cache.toSlab.stepKey? (place.getD noSlot)
      ((order.filterMap cache.entryAt).map (·.1)) := by
  induction h with
  | done hended =>
    rw [hended]
    exact .done rfl
  | @step place next i rest hnot hstep _ ih =>
    rcases Option.bind_eq_some_iff.1 hstep with ⟨j, rfl, hj⟩
    rcases Option.map_eq_some_iff.1 hj with ⟨slot, hslot, hlink⟩
    obtain ⟨rfl, rfl⟩ := Prod.mk.inj hlink
    have hentry : cache.entryAt j = some (slot.key, slot.value) := by
      rw [entryAt, hslot, Option.map_some]
    have hne : j ≠ noSlot := ne_noSlot_of_lt (entryAt_lt hentry) hsize
    rw [List.filterMap_cons_some hentry, List.map_cons]
    refine .step hne ?_ ih
    rw [Option.getD_some, Slab.stepKey?, getElem?_slots_toSlab, hslot]
    rfl

end Keys

/-! ## Requests -/

section Requests

variable [Std.TransOrd κ] {cache : LruCache κ ν} {order : List Nat}

theorem get?_toSlab (h : Arranged cache order) (hsize : cache.slots.size ≤ noSlot) (key : κ) :
    cache.toSlab.get? key = some ((cache.get key).map id toSlab) := by
  have hindex : cache.toSlab.index[key]? = cache.index[key]? := rfl
  rw [Slab.get?, LruCache.get, hindex]
  cases hkey : cache.index[key]? with
  | none => rfl
  | some i =>
    rcases h.exists_split hkey with ⟨front, back, value, rfl, hvalue, -, -⟩
    -- The slot has its value before and after it is moved.
    have hmoved := (SameEntries.touch cache i).entryAt i
    rw [hvalue] at hmoved
    rcases Option.map_eq_some_iff.1 hvalue with ⟨slot, hslot, heq⟩
    rcases Option.map_eq_some_iff.1 hmoved with ⟨slot', hslot', heq'⟩
    have hsame : slot'.value = slot.value := congrArg Prod.snd (heq'.trans heq.symm)
    simp only [touch?_toSlab h.toLinked hsize, Option.bind_eq_bind, Option.bind_some,
      getElem?_slots_toSlab, hslot', hslot, Option.map_some]
    exact congrArg (fun value => some (some value, (cache.touch i).toSlab)) hsame

theorem set?_toSlab_held (h : Arranged cache order) (hsize : cache.slots.size ≤ noSlot) {key : κ}
    {i : Nat} (hkey : cache.index[key]? = some i) (value : ν) :
    cache.toSlab.set? key value = some ((cache.set key value).map id toSlab) := by
  have hindex : cache.toSlab.index[key]? = some i := hkey
  rcases h.exists_split hkey with ⟨front, back, old, rfl, hold, -, -⟩
  have hwritten : cache.toSlab.modifySlot? i ({ · with value }) =
      some (cache.modifySlot i ({ · with value })).toSlab :=
    modifySlot?_toSlab (entryAt_lt hold) fun _ => rfl
  have hoverwritten := (h.overwrite (i := i) value).toLinked
  simp only [Slab.set?, LruCache.set, hindex, hkey, hwritten, Option.bind_eq_bind, Option.bind_some,
    touch?_toSlab hoverwritten (by rwa [size_slots_modifySlot])]
  rfl

theorem toSlab_grown (key : κ) (value : ν) :
    (cache.grown key value).toSlab = { cache.toSlab with
      slots := cache.toSlab.slots.push { key, value, newer := noSlot, older := noSlot }
      index := cache.toSlab.index.insert key cache.toSlab.slots.size } := by
  simp only [toSlab, grown, Array.map_push, Array.size_map]
  rfl

theorem set?_toSlab_room (h : Arranged cache order) (hword : cache.capacity ≤ noSlot) {key : κ}
    (hkey : cache.index[key]? = none) (hroom : cache.index.size < cache.capacity) (value : ν) :
    cache.toSlab.set? key value = some ((cache.set key value).map id toSlab) := by
  have hindex : cache.toSlab.index[key]? = none := hkey
  have hroom' : cache.toSlab.index.size < cache.toSlab.capacity := hroom
  have hslots : (cache.grown key value).slots.size = cache.slots.size + 1 := Array.size_push _
  -- The new slot is the last one, and its number is a word other than that for no slot.
  have hattached : (cache.grown key value).toSlab.attachNewest? cache.toSlab.slots.size =
      some ((cache.grown key value).attachNewest cache.slots.size).toSlab := by
    rw [size_slots_toSlab]
    rw [h.size_index] at hroom
    exact attachNewest?_toSlab h.toLinked.grown (by omega) (by omega)
  simp only [Slab.set?, LruCache.set, hindex, hkey, if_pos hroom, if_pos hroom', ← toSlab_grown,
    hattached, Option.bind_eq_bind, Option.bind_some]
  rfl

theorem set?_toSlab_full (h : Arranged cache order) (hsize : cache.slots.size ≤ noSlot) {key : κ}
    (hkey : cache.index[key]? = none) (hfull : ¬cache.index.size < cache.capacity) (value : ν) :
    cache.toSlab.set? key value = some ((cache.set key value).map id toSlab) := by
  have hindex : cache.toSlab.index[key]? = none := hkey
  have hfull' : ¬cache.toSlab.index.size < cache.toSlab.capacity := hfull
  rcases List.eq_nil_or_concat' order with rfl | ⟨front, i, rfl⟩
  · -- There is room for an entry, so a full cache has a slot.
    have hlength := h.size_eq
    have hpos := h.capacity_pos
    rw [h.size_index] at hfull
    rw [List.length_nil] at hlength
    omega
  have htail : cache.tail = some i := by rw [h.tail_eq, List.getLast?_concat]
  have htail' : cache.toSlab.tail = i := by rw [toSlab, htail, Option.getD_some]
  have hdetached := (SameEntries.detach cache i).size
  have hi : i < cache.slots.size := h.lt_size i (by simp)
  have hi' : i < (cache.detach i).slots.size := by rwa [hdetached]
  have hslot : (cache.detach i).slots[i]? = some (cache.detach i).slots[i] :=
    Array.getElem?_eq_getElem hi'
  have hwritten : (cache.detach i).toSlab.modifySlot? i ({ · with key, value }) =
      some ((cache.detach i).modifySlot i ({ · with key, value })).toSlab :=
    modifySlot?_toSlab hi' fun _ => rfl
  have hrenewed : Linked (cache.renewed i (cache.detach i).slots[i].key key value) front :=
    h.toLinked.renewed
  have hattached := attachNewest?_toSlab (i := i) hrenewed (by rwa [size_slots_renewed])
    (by rwa [size_slots_renewed])
  simp only [Slab.set?, LruCache.set, hindex, hkey, if_neg hfull, if_neg hfull', htail, htail',
    detach?_toSlab h.toLinked hsize, getElem?_slots_toSlab, hslot, Option.map_some, hwritten,
    Option.bind_eq_bind, Option.bind_some]
  exact (congrArg (Option.bind · _) hattached).trans rfl

theorem set?_toSlab (h : Arranged cache order) (hword : cache.capacity ≤ noSlot) (key : κ)
    (value : ν) : cache.toSlab.set? key value = some ((cache.set key value).map id toSlab) := by
  have hsize : cache.slots.size ≤ noSlot := Nat.le_trans h.size_le hword
  cases hkey : cache.index[key]? with
  | some i => exact set?_toSlab_held h hsize hkey value
  | none =>
    by_cases hroom : cache.index.size < cache.capacity
    · exact set?_toSlab_room h hword hkey hroom value
    · exact set?_toSlab_full h hsize hkey hroom value

theorem answer?_toSlab (h : Arranged cache order) (hword : cache.capacity ≤ noSlot)
    (request : CacheRequest κ ν) :
    cache.toSlab.answer? request = some ((cache.answer request).map id toSlab) := by
  cases request with
  | set key value =>
    rw [Slab.answer?, set?_toSlab h hword]
    rfl
  | get key =>
    rw [Slab.answer?, get?_toSlab h (Nat.le_trans h.size_le hword)]
    rfl
  | contains key => rfl

end Requests

/-! ## Runs -/

section Runs

variable [Std.TransOrd κ]

/-- The answers to requests one after the other, and the cache afterwards. -/
def run (cache : LruCache κ ν) :
    List (CacheRequest κ ν) → List (CacheAnswer κ ν) × LruCache κ ν
  | [] => ([], cache)
  | request :: requests =>
      let (answer, cache) := cache.answer request
      let (answers, cache) := cache.run requests
      (answer :: answers, cache)

variable [Std.LawfulEqOrd κ] [DecidableEq κ] {cache : LruCache κ ν} {capacity : Nat}
  {entries : RecencyList κ ν}

theorem Shows.run (h : Shows cache capacity entries) (requests : List (CacheRequest κ ν)) :
    ∃ entries, Shows (cache.run requests).2 capacity entries := by
  induction requests generalizing cache entries with
  | nil => exact ⟨entries, h⟩
  | cons request requests ih => exact ih (h.answer request).2

/-- No access of a run fails. -/
theorem Shows.run?_toSlab (h : Shows cache capacity entries) (hword : capacity ≤ noSlot)
    (requests : List (CacheRequest κ ν)) :
    cache.toSlab.run? requests = some ((cache.run requests).map id toSlab) := by
  induction requests generalizing cache entries with
  | nil => rfl
  | cons request requests ih =>
    rcases h.arranged with ⟨order, harranged⟩
    have hanswer := answer?_toSlab harranged (h.capacity_eq ▸ hword) request
    have hrest := ih (h.answer request).2
    simp only [Slab.run?, hanswer, Prod.map, hrest, Option.bind_eq_bind, Option.bind_some]
    rfl

/-- Between the requests of any run the slots of a cache are one list from the head to the tail that
the index leads into.  With its links as words the cache gives the same answers, each access on the
way reaches a slot, and the walk from the head lists the keys and ends. -/
theorem run_slots_sound (hpos : 0 < capacity) (hword : capacity < UInt64.size)
    (requests : List (CacheRequest κ ν)) :
    ∃ (new cache : LruCache κ ν) (answers : List (CacheAnswer κ ν)) (order : List Nat),
      create capacity = .ok new ∧ new.run requests = (answers, cache) ∧
        cache.capacity = capacity ∧ SlotInvariant cache order ∧
        (Slab.empty capacity).run? requests = some (answers, cache.toSlab) ∧
        Traverses (· = noSlot) cache.toSlab.stepKey? cache.toSlab.head cache.keys := by
  have hcreate : create capacity = .ok (LruCache.empty capacity : LruCache κ ν) := by
    rw [create, if_neg (Nat.ne_of_gt hpos)]
  have hnoSlot : capacity ≤ noSlot := Nat.le_sub_one_of_lt hword
  have hnew := (Shows.of_create hcreate).2
  rcases hnew.run requests with ⟨entries, hafter⟩
  rcases hafter.arranged with ⟨order, harranged⟩
  have hcapacity : (run (LruCache.empty capacity) requests).2.capacity ≤ noSlot := by
    rwa [hafter.capacity_eq]
  have hinvariant := harranged.slotInvariant hcapacity
  have hslab := hnew.run?_toSlab hnoSlot requests
  rw [toSlab_empty] at hslab
  refine ⟨_, _, _, order, hcreate, rfl, hafter.capacity_eq, hinvariant, hslab, ?_⟩
  have hsize := Nat.le_trans hinvariant.size_le hcapacity
  have hkeys := traverses_keys hsize hinvariant.towardsOlder
  rwa [← harranged.entries_eq] at hkeys

/-- Two slots, the second of which is used again for a third key. -/
theorem run_slots_sound_two_slots :
    0 < 2 ∧ 2 < UInt64.size ∧
      ∃ (new cache : LruCache String Nat) (answers : List (CacheAnswer String Nat))
        (order : List Nat),
        create 2 = .ok new ∧
          new.run [.set "a" 1, .set "b" 2, .get "a", .set "c" 3] = (answers, cache) ∧
          cache.capacity = 2 ∧ SlotInvariant cache order ∧
          (Slab.empty 2).run? [.set "a" 1, .set "b" 2, .get "a", .set "c" 3] =
            some (answers, cache.toSlab) ∧
          Traverses (· = noSlot) cache.toSlab.stepKey? cache.toSlab.head cache.keys ∧
          answers = [.evicted none, .evicted none, .found (some 1), .evicted (some ("b", 2))] ∧
          cache.keys = ["c", "a"] := by
  have hpos : 0 < 2 := by decide
  have hword : 2 < UInt64.size := by decide
  rcases run_slots_sound hpos hword
    ([.set "a" 1, .set "b" 2, .get "a", .set "c" 3] : List (CacheRequest String Nat)) with
    ⟨new, cache, answers, order, hcreate, hrun, hcapacity, hinvariant, hslab, hkeys⟩
  refine ⟨hpos, hword, new, cache, answers, order, hcreate, hrun, hcapacity, hinvariant, hslab,
    hkeys, ?_⟩
  have hnew : new = LruCache.empty 2 := (Except.ok.inj hcreate).symm
  rw [hnew] at hrun
  obtain ⟨rfl, rfl⟩ := Prod.mk.inj hrun
  decide +kernel

end Runs

end LruCache
end BuildTree
