import BuildTree.Proofs.Cache.Links
import BuildTree.Proofs.Cache.RecencyList

/-!
# Recency — a cache behaves like its recency list

A cache is arranged if its links run through all of its slots and its index leads from each key to
the one slot that holds it.  Creating, looking up and setting keep a cache arranged, and what they
answer and leave is what the recency list of the cache's entries answers and leaves.  So no run of
requests tells a cache from a recency list.
-/

namespace BuildTree
namespace LruCache

universe u v

variable {κ : Type u} {ν : Type v} [Ord κ] [Std.TransOrd κ]

/-! ## Arranged caches -/

/-- A cache whose index finds the slot of every key. -/
structure Indexed (cache : LruCache κ ν) : Prop where
  index_iff : ∀ key i, cache.index[key]? = some i ↔ ∃ value, cache.entryAt i = some (key, value)
  size_index : cache.index.size = cache.slots.size

/-- A cache whose links run through all of its slots in some order, and whose index finds the slot
of every key. -/
structure Arranged (cache : LruCache κ ν) (order : List Nat) : Prop
    extends Linked cache order, Indexed cache where
  complete : ∀ i < cache.slots.size, i ∈ order
  size_le : cache.slots.size ≤ cache.capacity
  capacity_pos : 0 < cache.capacity

section Slots

variable {cache other : LruCache κ ν} {order front back : List Nat} {i j : Nat} {key : κ}
  {value : ν} {entry : κ × ν}

namespace Indexed

theorem of_sameEntries (h : Indexed cache) (hsame : SameEntries cache other) : Indexed other where
  index_iff key i := by
    rw [hsame.index, hsame.entryAt]
    exact h.index_iff key i
  size_index := by
    rw [hsame.index, hsame.size]
    exact h.size_index

/-- A new value for the key in a slot leaves the index right. -/
theorem overwrite (h : Indexed cache) (value : ν) :
    Indexed (cache.modifySlot i ({ · with value })) where
  index_iff key j := by
    rw [entryAt_modifySlot]
    refine (h.index_iff key j).trans ?_
    split
    · rename_i hij
      rw [hij, entryAt]
      cases cache.slots[i]? <;> simp
    · rfl
  size_index := by
    rw [size_slots_modifySlot]
    exact h.size_index

/-- An entry with a new key is put into a slot, in place of the entry there, if any. -/
theorem replace [DecidableEq κ] (h : Indexed cache) (hkey : cache.index[key]? = none)
    (hentry : ∀ j, other.entryAt j = if j = i then some (key, value) else cache.entryAt j)
    (hindex : ∀ k, other.index[k]? =
      if k = key then some i else if cache.index[k]? = some i then none else cache.index[k]?)
    (hsize : other.index.size = other.slots.size) : Indexed other where
  index_iff k j := by
    rw [hindex, hentry]
    by_cases hk : k = key
    · -- The new key leads to the slot, and it led nowhere before.
      subst hk
      rw [if_pos rfl]
      by_cases hj : j = i
      · rw [if_pos hj, hj]
        exact ⟨fun _ => ⟨value, rfl⟩, fun _ => rfl⟩
      · rw [if_neg hj, ← h.index_iff, hkey]
        simp [Ne.symm hj]
    · -- Another key keeps its slot, unless its entry was the one that was replaced.
      rw [if_neg hk]
      by_cases hj : j = i
      · rw [if_pos hj, hj]
        have hreplaced : (if cache.index[k]? = some i then none else cache.index[k]?) ≠ some i := by
          split
          · exact Option.some_ne_none i ∘ Eq.symm
          · assumption
        refine ⟨fun hi => absurd hi hreplaced, ?_⟩
        rintro ⟨v, hv⟩
        exact absurd (congrArg Prod.fst (Option.some.inj hv)).symm hk
      · rw [if_neg hj, ← h.index_iff]
        split
        · rename_i hi
          simp [hi, Ne.symm hj]
        · rfl
  size_index := hsize

end Indexed

namespace Arranged

theorem of_sameEntries (h : Arranged cache order) (hsame : SameEntries cache other)
    {order' : List Nat} (hlinked : Linked other order') (hperm : order'.Perm order) :
    Arranged other order' where
  toLinked := hlinked
  toIndexed := h.toIndexed.of_sameEntries hsame
  complete i hi := by
    rw [hsame.size] at hi
    exact hperm.mem_iff.2 (h.complete i hi)
  size_le := by
    rw [hsame.size, hsame.capacity]
    exact h.size_le
  capacity_pos := by
    rw [hsame.capacity]
    exact h.capacity_pos

theorem touch (h : Arranged cache (front ++ i :: back)) :
    Arranged (cache.touch i) (i :: (front ++ back)) :=
  h.of_sameEntries (SameEntries.touch _ i) h.toLinked.touch List.perm_middle.symm

theorem perm_range (h : Arranged cache order) : order.Perm (List.range cache.slots.size) := by
  rw [List.perm_ext_iff_of_nodup h.nodup List.nodup_range]
  intro i
  rw [List.mem_range]
  exact ⟨h.lt_size i, h.complete i⟩

theorem size_eq (h : Arranged cache order) : order.length = cache.slots.size := by
  rw [h.perm_range.length_eq, List.length_range]

/-- Every slot of an order holds an entry, so the entries are as many as the slots. -/
theorem length_entries (h : Arranged cache order) : cache.entries.length = cache.slots.size := by
  have hsome : ∀ i ∈ order, (cache.entryAt i).isSome := by
    intro i hi
    simp [entryAt, h.lt_size i hi]
  rw [h.entries_eq, List.length_filterMap_eq_countP, List.countP_eq_length.2 hsome, h.size_eq]

/-- A key that the index does not know is in no entry. -/
theorem ne_of_mem_entries (h : Arranged cache order) (hkey : cache.index[key]? = none)
    (hentry : entry ∈ cache.entries) : entry.1 ≠ key := by
  rw [h.entries_eq] at hentry
  rcases List.mem_filterMap.1 hentry with ⟨i, -, hi⟩
  intro heq
  have hindex : cache.index[key]? = some i := (h.index_iff key i).2 ⟨entry.2, by rw [hi, ← heq]⟩
  rw [hkey] at hindex
  cases hindex

/-- The slot of a key splits the list of slots and that of the entries, and the key is in no other
entry. -/
theorem exists_split (h : Arranged cache order) (hkey : cache.index[key]? = some i) :
    ∃ front back value, order = front ++ i :: back ∧ cache.entryAt i = some (key, value) ∧
      cache.entries = front.filterMap cache.entryAt ++
        (key, value) :: back.filterMap cache.entryAt ∧
      ∀ entry ∈ front.filterMap cache.entryAt, entry.1 ≠ key := by
  rcases (h.index_iff key i).1 hkey with ⟨value, hvalue⟩
  rcases List.append_of_mem (h.complete i (entryAt_lt hvalue)) with ⟨front, back, hsplit⟩
  refine ⟨front, back, value, hsplit, hvalue, ?_, ?_⟩
  · rw [h.entries_eq, hsplit, List.filterMap_append, List.filterMap_cons_some hvalue]
  · intro entry hentry heq
    rcases List.mem_filterMap.1 hentry with ⟨j, hj, hslot⟩
    -- An equal key would be in the same slot, which occurs only once.
    have hindex : cache.index[key]? = some j :=
      (h.index_iff key j).2 ⟨entry.2, by rw [hslot, ← heq]⟩
    obtain rfl : i = j := Option.some.inj (hkey.symm.trans hindex)
    have hnodup := h.nodup
    rw [hsplit] at hnodup
    exact List.disjoint_of_nodup_append hnodup hj List.mem_cons_self

/-- A cache is arranged once its one slot outside of the list of slots is put in. -/
theorem attachNewest (hlinked : Linked cache order) (hindexed : Indexed cache)
    (hnew : i ∉ order) (hi : i < cache.slots.size)
    (hcomplete : ∀ j < cache.slots.size, j ∈ i :: order) (hsize : cache.slots.size ≤ cache.capacity) :
    Arranged (cache.attachNewest i) (i :: order) := by
  have hsame := SameEntries.attachNewest cache i
  refine ⟨hlinked.attachNewest hi hnew, hindexed.of_sameEntries hsame, ?_, ?_, ?_⟩
  · intro j hj
    rw [hsame.size] at hj
    exact hcomplete j hj
  · rw [hsame.size, hsame.capacity]
    exact hsize
  · rw [hsame.capacity]
    omega

/-- A new value in a slot. -/
theorem overwrite (h : Arranged cache order) (value : ν) :
    Arranged (cache.modifySlot i ({ · with value })) order where
  toLinked := by
    refine h.toLinked.of_links (Nat.le_of_eq size_slots_modifySlot.symm) ?_ ?_
    · exact fun p => olderOf_modifySlot_of_eq fun _ => rfl
    · exact fun p => newerOf_modifySlot_of_eq fun _ => rfl
  toIndexed := h.toIndexed.overwrite value
  complete j hj := by
    rw [size_slots_modifySlot] at hj
    exact h.complete j hj
  size_le := by
    rw [size_slots_modifySlot]
    exact h.size_le
  capacity_pos := h.capacity_pos

end Arranged

/-! ## New entries -/

/-- A cache with one slot more, which is in no list yet. -/
def grown (cache : LruCache κ ν) (key : κ) (value : ν) : LruCache κ ν :=
  { cache with
    slots := cache.slots.push { key, value, newer := none, older := none }
    index := cache.index.insert key cache.slots.size }

/-- A cache with a new entry in a slot, which is in no list any more. -/
def renewed (cache : LruCache κ ν) (i : Nat) (oldKey key : κ) (value : ν) : LruCache κ ν :=
  { (cache.detach i).modifySlot i ({ · with key, value }) with
    index := ((cache.detach i).index.erase oldKey).insert key i }

section New

variable {oldKey : κ} {oldValue : ν}

theorem entryAt_grown : (cache.grown key value).entryAt j =
    if j = cache.slots.size then some (key, value) else cache.entryAt j := by
  simp only [entryAt, grown, Array.getElem?_push]
  split <;> rfl

/-- A slot that is in no list yet changes no link. -/
theorem Linked.grown (h : Linked cache order) : Linked (cache.grown key value) order := by
  refine h.of_links (by simp [LruCache.grown]) ?_ ?_
  · intro p
    cases p with
    | none => rfl
    | some j =>
      simp only [olderOf, LruCache.grown, Array.getElem?_push]
      split
      · rename_i hj
        simp [hj]
      · rfl
  · intro p
    cases p with
    | none => rfl
    | some j =>
      simp only [newerOf, LruCache.grown, Array.getElem?_push]
      split
      · rename_i hj
        simp [hj]
      · rfl

theorem size_slots_renewed : (cache.renewed i oldKey key value).slots.size = cache.slots.size := by
  rw [← (SameEntries.detach cache i).size]
  exact size_slots_modifySlot

theorem entryAt_renewed (hi : i < cache.slots.size) :
    (cache.renewed i oldKey key value).entryAt j =
      if j = i then some (key, value) else cache.entryAt j := by
  have hsame := SameEntries.detach cache i
  have hi' : i < (cache.detach i).slots.size := by rwa [hsame.size]
  have hmodified : (cache.renewed i oldKey key value).entryAt j =
      ((cache.detach i).modifySlot i ({ · with key, value })).entryAt j := rfl
  rw [hmodified, entryAt_modifySlot, hsame.entryAt, Array.getElem?_eq_getElem hi']
  rfl

theorem Linked.renewed (h : Linked cache (front ++ [i])) :
    Linked (cache.renewed i oldKey key value) front := by
  have hdetached := h.detach
  rw [List.append_nil] at hdetached
  refine hdetached.of_links ?_ ?_ ?_
  · exact Nat.le_of_eq ((SameEntries.detach cache i).size.trans size_slots_renewed.symm)
  · intro p
    have hlink : ((cache.detach i).modifySlot i ({ · with key, value })).olderOf p =
        (cache.detach i).olderOf p := olderOf_modifySlot_of_eq fun _ => rfl
    cases p <;> exact hlink
  · intro p
    have hlink : ((cache.detach i).modifySlot i ({ · with key, value })).newerOf p =
        (cache.detach i).newerOf p := newerOf_modifySlot_of_eq fun _ => rfl
    cases p <;> exact hlink

variable [Std.LawfulEqOrd κ] [DecidableEq κ]

theorem Indexed.grown (h : Indexed cache) (hkey : cache.index[key]? = none) :
    Indexed (cache.grown key value) := by
  refine h.replace hkey (fun j => entryAt_grown) ?_ ?_
  · intro k
    -- Nothing was in the new slot.
    have hnone : cache.index[k]? ≠ some cache.slots.size := by
      intro hk
      rcases (h.index_iff k _).1 hk with ⟨v, hv⟩
      exact absurd (entryAt_lt hv) (Nat.lt_irrefl _)
    simp only [LruCache.grown, Std.ExtTreeMap.getElem?_insert, Std.compare_eq_iff_eq, if_neg hnone,
      eq_comm (a := key)]
  · simp [LruCache.grown, Std.ExtTreeMap.size_insert, Std.ExtTreeMap.contains_eq_isSome_getElem?,
      hkey, h.size_index]

theorem Indexed.renewed (h : Indexed cache) (hkey : cache.index[key]? = none)
    (hold : cache.entryAt i = some (oldKey, oldValue)) :
    Indexed (cache.renewed i oldKey key value) := by
  have hindex : cache.index[oldKey]? = some i := (h.index_iff oldKey i).2 ⟨oldValue, hold⟩
  refine h.replace hkey (fun j => entryAt_renewed (entryAt_lt hold)) ?_ ?_
  · intro k
    -- Only the key that was replaced led to the slot.
    have hslot : cache.index[k]? = some i ↔ oldKey = k := by
      constructor
      · intro hk
        rcases (h.index_iff k i).1 hk with ⟨v, hv⟩
        exact congrArg Prod.fst (Option.some.inj (hold.symm.trans hv))
      · rintro rfl
        exact hindex
    simp only [LruCache.renewed, (SameEntries.detach cache i).index, Std.ExtTreeMap.getElem?_insert,
      Std.ExtTreeMap.getElem?_erase, Std.compare_eq_iff_eq, hslot, eq_comm (a := key)]
  · have hpos : 0 < cache.index.size := by
      rw [h.size_index]
      exact Nat.zero_lt_of_lt (entryAt_lt hold)
    have hfresh : (cache.index.erase oldKey).contains key = false := by
      rw [Std.ExtTreeMap.contains_eq_isSome_getElem?, Std.ExtTreeMap.getElem?_erase, hkey]
      simp
    have herased : (cache.index.erase oldKey).size = cache.index.size - 1 := by
      rw [Std.ExtTreeMap.size_erase, Std.ExtTreeMap.contains_eq_isSome_getElem?, hindex]
      rfl
    have hsize : ((cache.index.erase oldKey).insert key i).size = cache.index.size := by
      rw [Std.ExtTreeMap.size_insert, hfresh, herased]
      exact Nat.succ_pred_eq_of_pos hpos
    rw [size_slots_renewed, ← h.size_index, ← hsize, LruCache.renewed,
      (SameEntries.detach cache i).index]

end New

end Slots

/-! ## Requests -/

/-- A cache that is arranged and whose entries are a recency list. -/
structure Shows (cache : LruCache κ ν) (capacity : Nat) (entries : RecencyList κ ν) : Prop where
  arranged : ∃ order, Arranged cache order
  capacity_eq : cache.capacity = capacity
  entries_eq : cache.entries = entries

namespace Shows

variable {cache : LruCache κ ν} {capacity : Nat} {entries : RecencyList κ ν}

theorem empty (h : 0 < capacity) : Shows (LruCache.empty capacity : LruCache κ ν) capacity [] := by
  have hlinked : Linked (LruCache.empty capacity : LruCache κ ν) [] := by
    refine ⟨List.nodup_nil, by simp, ?_⟩
    intro front back hsplit
    obtain ⟨rfl, rfl⟩ := List.append_eq_nil_iff.1 hsplit.symm
    exact ⟨rfl, rfl⟩
  refine ⟨⟨[], ⟨hlinked, ⟨?_, rfl⟩, ?_, Nat.zero_le _, h⟩⟩, rfl, hlinked.entries_eq⟩
  · intro key i
    simp [LruCache.empty, entryAt]
  · intro i hi
    exact absurd hi (Nat.not_lt_zero i)

/-- A new cache shows no entries and has room for some. -/
theorem of_create (new : create capacity = .ok cache) : 0 < capacity ∧ Shows cache capacity [] := by
  rw [create] at new
  split at new
  · cases new
  · rename_i hcapacity
    cases new
    have hpos : 0 < capacity := Nat.pos_of_ne_zero hcapacity
    exact ⟨hpos, empty hpos⟩

theorem size_eq (h : Shows cache capacity entries) : cache.size = entries.length := by
  rcases h with ⟨⟨order, harranged⟩, -, rfl⟩
  rw [size, harranged.size_index, harranged.length_entries]

theorem keys_eq (h : Shows cache capacity entries) : cache.keys = entries.map (·.1) := by
  rw [keys, h.entries_eq]

theorem length_le (h : Shows cache capacity entries) : entries.length ≤ capacity := by
  rcases h with ⟨⟨order, harranged⟩, rfl, rfl⟩
  rw [harranged.length_entries]
  exact harranged.size_le

variable [DecidableEq κ]

theorem contains_eq (h : Shows cache capacity entries) (key : κ) :
    cache.contains key = (entries.lookup key).isSome := by
  rcases h with ⟨⟨order, harranged⟩, -, rfl⟩
  rw [contains, Std.ExtTreeMap.contains_eq_isSome_getElem?]
  cases hkey : cache.index[key]? with
  | none =>
    rw [RecencyList.lookup_eq_none fun entry => harranged.ne_of_mem_entries hkey]
    rfl
  | some i =>
    rcases harranged.exists_split hkey with ⟨front, back, value, -, -, hentries, hfront⟩
    rw [hentries, RecencyList.lookup_middle hfront]
    rfl

theorem get (h : Shows cache capacity entries) (key : κ) :
    (cache.get key).1 = (RecencyList.get entries key).1 ∧
      Shows (cache.get key).2 capacity (RecencyList.get entries key).2 := by
  have hshows := h
  rcases h with ⟨⟨order, harranged⟩, rfl, rfl⟩
  rw [LruCache.get]
  cases hkey : cache.index[key]? with
  | none =>
    have hnone : cache.entries.lookup key = none :=
      RecencyList.lookup_eq_none fun entry => harranged.ne_of_mem_entries hkey
    rw [RecencyList.get, hnone]
    exact ⟨rfl, hshows⟩
  | some i =>
    rcases harranged.exists_split hkey with ⟨front, back, value, rfl, hvalue, hentries, hfront⟩
    have htouched := harranged.touch
    have hsame := SameEntries.touch cache i
    have hlookup : cache.entries.lookup key = some value := by
      rw [hentries, RecencyList.lookup_middle hfront]
    have hfound : (cache.slots[i]?).map (·.value) = some value := by
      rcases Option.map_eq_some_iff.1 hvalue with ⟨slot, hslot, heq⟩
      rw [hslot, Option.map_some, (Prod.mk.inj heq).2]
    rw [RecencyList.get, hlookup]
    refine ⟨hfound, ⟨_, htouched⟩, hsame.capacity, ?_⟩
    rw [htouched.entries_eq, funext hsame.entryAt, List.filterMap_cons_some hvalue,
      List.filterMap_append, hentries, RecencyList.without_middle hfront]

/-- Setting a key that a cache holds. -/
theorem set_held (h : Shows cache capacity entries) {key : κ} {i : Nat}
    (hkey : cache.index[key]? = some i) (value : ν) :
    (entries.lookup key).isSome ∧
      Shows ((cache.modifySlot i ({ · with value })).touch i) capacity
        ((key, value) :: RecencyList.without entries key) := by
  rcases h with ⟨⟨order, harranged⟩, rfl, rfl⟩
  rcases harranged.exists_split hkey with ⟨front, back, old, rfl, hold, hentries, hfront⟩
  have htouched := (harranged.overwrite (i := i) value).touch
  have hsame := SameEntries.touch (cache.modifySlot i ({ · with value })) i
  -- The new value stands in the slot, and the other slots are what they were.
  have hself : (cache.modifySlot i ({ · with value })).entryAt i = some (key, value) := by
    rcases Option.map_eq_some_iff.1 hold with ⟨slot, hslot, heq⟩
    rw [entryAt_modifySlot, if_pos rfl, hslot, Option.map_some, (Prod.mk.inj heq).1]
  have hothers : (front ++ back).filterMap (cache.modifySlot i ({ · with value })).entryAt =
      (front ++ back).filterMap cache.entryAt :=
    filterMap_entryAt_of_notMem (fun j => entryAt_modifySlot)
      (List.nodup_middle.1 harranged.nodup).notMem
  refine ⟨?_, ⟨_, htouched⟩, hsame.capacity, ?_⟩
  · rw [hentries, RecencyList.lookup_middle hfront]
    rfl
  · rw [htouched.entries_eq, funext hsame.entryAt, List.filterMap_cons_some hself, hothers,
      List.filterMap_append, hentries, RecencyList.without_middle hfront]

variable [Std.LawfulEqOrd κ]

/-- Setting a new key while there is room. -/
theorem set_room (h : Shows cache capacity entries) {key : κ} (hkey : cache.index[key]? = none)
    (hroom : cache.index.size < cache.capacity) (value : ν) :
    Shows ((cache.grown key value).attachNewest cache.slots.size) capacity
      ((key, value) :: entries) := by
  rcases h with ⟨⟨order, harranged⟩, rfl, rfl⟩
  have hsize : (cache.grown key value).slots.size = cache.slots.size + 1 := Array.size_push _
  have hnew : cache.slots.size ∉ order := by
    intro hmem
    exact Nat.lt_irrefl _ (harranged.lt_size _ hmem)
  have hattached : Arranged ((cache.grown key value).attachNewest cache.slots.size)
      (cache.slots.size :: order) := by
    refine Arranged.attachNewest harranged.toLinked.grown (harranged.toIndexed.grown hkey) hnew
      (by omega) ?_ ?_
    · intro j hj
      rw [hsize] at hj
      rcases Nat.lt_succ_iff_lt_or_eq.1 hj with hlt | rfl
      · exact List.mem_cons_of_mem _ (harranged.complete j hlt)
      · exact List.mem_cons_self
    · rw [hsize, ← harranged.size_index]
      exact hroom
  have hsame := SameEntries.attachNewest (cache.grown key value) cache.slots.size
  have hothers : order.filterMap (cache.grown key value).entryAt =
      order.filterMap cache.entryAt :=
    filterMap_entryAt_of_notMem (fun j => entryAt_grown) hnew
  refine ⟨⟨_, hattached⟩, hsame.capacity, ?_⟩
  rw [hattached.entries_eq, funext hsame.entryAt,
    List.filterMap_cons_some (entryAt_grown.trans (if_pos rfl)), hothers, harranged.entries_eq]

/-- Setting a new key in a full cache takes the slot at the tail. -/
theorem set_full (h : Shows cache capacity entries) {key : κ} (hkey : cache.index[key]? = none)
    (hfull : cache.capacity ≤ cache.index.size) (value : ν) :
    ∃ i old rest, cache.tail = some i ∧ cache.entryAt i = some old ∧ entries = rest ++ [old] ∧
      Shows ((cache.renewed i old.1 key value).attachNewest i) capacity ((key, value) :: rest) := by
  rcases h with ⟨⟨order, harranged⟩, rfl, rfl⟩
  rw [harranged.size_index] at hfull
  have hpos := harranged.capacity_pos
  rcases List.eq_nil_or_concat order with rfl | ⟨front, i, rfl⟩
  · have hlength := harranged.size_eq
    rw [List.length_nil] at hlength
    omega
  rw [List.concat_eq_append] at harranged
  have htail : cache.tail = some i := by rw [harranged.tail_eq, List.getLast?_concat]
  have hi : i < cache.slots.size := harranged.lt_size i (by simp)
  obtain ⟨old, hold⟩ : ∃ old, cache.entryAt i = some old := by
    rw [entryAt, Array.getElem?_eq_getElem hi]
    exact ⟨_, rfl⟩
  have hnew : i ∉ front := by
    intro hmem
    exact List.disjoint_of_nodup_append harranged.nodup hmem List.mem_cons_self
  have hattached : Arranged ((cache.renewed i old.1 key value).attachNewest i) (i :: front) := by
    refine Arranged.attachNewest harranged.toLinked.renewed (harranged.toIndexed.renewed hkey hold)
      hnew (by rwa [size_slots_renewed]) ?_ ?_
    · intro j hj
      rw [size_slots_renewed] at hj
      rcases List.mem_append.1 (harranged.complete j hj) with hmem | hmem
      · exact List.mem_cons_of_mem i hmem
      · rw [List.mem_singleton.1 hmem]
        exact List.mem_cons_self
    · rw [size_slots_renewed]
      exact Nat.le_trans harranged.size_le (Nat.le_of_eq (SameEntries.detach cache i).capacity.symm)
  have hsame := SameEntries.attachNewest (cache.renewed i old.1 key value) i
  have hothers : front.filterMap (cache.renewed i old.1 key value).entryAt =
      front.filterMap cache.entryAt :=
    filterMap_entryAt_of_notMem (fun j => entryAt_renewed hi) hnew
  refine ⟨i, old, front.filterMap cache.entryAt, htail, hold, ?_, ⟨_, hattached⟩, ?_, ?_⟩
  · rw [harranged.entries_eq, List.filterMap_append, List.filterMap_cons_some hold]
    rfl
  · exact hsame.capacity.trans (SameEntries.detach cache i).capacity
  · rw [hattached.entries_eq, funext hsame.entryAt,
      List.filterMap_cons_some ((entryAt_renewed hi).trans (if_pos rfl)), hothers]

theorem set (h : Shows cache capacity entries) (key : κ) (value : ν) :
    (cache.set key value).1 = (RecencyList.set capacity entries key value).1 ∧
      Shows (cache.set key value).2 capacity (RecencyList.set capacity entries key value).2 := by
  rw [LruCache.set]
  cases hkey : cache.index[key]? with
  | some i =>
    rcases h.set_held hkey value with ⟨hheld, hshows⟩
    rw [RecencyList.set, if_pos hheld]
    exact ⟨rfl, hshows⟩
  | none =>
    have hnone : ¬(entries.lookup key).isSome := by
      rw [← h.contains_eq, contains, Std.ExtTreeMap.contains_eq_isSome_getElem?, hkey]
      decide
    rw [RecencyList.set, if_neg hnone]
    have hsize : cache.index.size = entries.length := h.size_eq
    by_cases hroom : cache.index.size < cache.capacity
    · have hlength : entries.length ≠ capacity := by
        rw [← hsize, ← h.capacity_eq]
        exact Nat.ne_of_lt hroom
      simp only [if_pos hroom, if_neg hlength]
      exact ⟨trivial, h.set_room hkey hroom value⟩
    · have hlength : entries.length = capacity := by
        rcases h with ⟨⟨order, harranged⟩, rfl, rfl⟩
        rw [harranged.size_index] at hroom
        rw [harranged.length_entries]
        exact Nat.le_antisymm harranged.size_le (Nat.le_of_not_lt hroom)
      rcases h.set_full hkey (Nat.le_of_not_lt hroom) value with
        ⟨i, old, rest, htail, hold, rfl, hshows⟩
      rw [← (SameEntries.detach cache i).entryAt] at hold
      rcases Option.map_eq_some_iff.1 hold with ⟨slot, hslot, rfl⟩
      simp only [if_neg hroom, htail, hslot, if_pos hlength]
      refine ⟨?_, ?_⟩
      · rw [← List.cons_append, List.getLast?_concat]
      · rw [← List.cons_append, List.dropLast_concat]
        exact hshows

end Shows

/-! ## Runs -/

section Runs

variable [DecidableEq κ]

/-- The answer to a request and the cache afterwards. -/
def answer (cache : LruCache κ ν) : CacheRequest κ ν → CacheAnswer κ ν × LruCache κ ν
  | .set key value => (cache.set key value).map .evicted id
  | .get key => (cache.get key).map .found id
  | .contains key => (.present (cache.contains key), cache)

/-- What is seen of a cache along a run of requests. -/
def views : LruCache κ ν → List (CacheRequest κ ν) → List (CacheView κ ν)
  | _, [] => []
  | cache, request :: requests =>
      let (answer, cache) := cache.answer request
      ⟨answer, cache.size, cache.keys⟩ :: cache.views requests

/-- The caches that there can be: new ones, and what a request leaves behind. -/
inductive Reachable : LruCache κ ν → Prop
  | created {capacity : Nat} {cache : LruCache κ ν} (new : create capacity = .ok cache) :
      Reachable cache
  | answered {cache : LruCache κ ν} (before : Reachable cache) (request : CacheRequest κ ν) :
      Reachable (cache.answer request).2

variable [Std.LawfulEqOrd κ] {cache : LruCache κ ν} {capacity : Nat} {entries : RecencyList κ ν}

theorem Shows.answer (h : Shows cache capacity entries) (request : CacheRequest κ ν) :
    (cache.answer request).1 = (entries.answer capacity request).1 ∧
      Shows (cache.answer request).2 capacity (entries.answer capacity request).2 := by
  cases request with
  | set key value =>
    rcases h.set key value with ⟨hevicted, hafter⟩
    exact ⟨congrArg CacheAnswer.evicted hevicted, hafter⟩
  | get key =>
    rcases h.get key with ⟨hfound, hafter⟩
    exact ⟨congrArg CacheAnswer.found hfound, hafter⟩
  | contains key => exact ⟨congrArg CacheAnswer.present (h.contains_eq key), h⟩

theorem Reachable.exists_shows (h : cache.Reachable) :
    ∃ capacity, 0 < capacity ∧ Shows cache capacity cache.entries := by
  induction h with
  | @created capacity cache new =>
    rcases Shows.of_create new with ⟨hpos, hempty⟩
    exact ⟨capacity, hpos, hempty.entries_eq ▸ hempty⟩
  | @answered cache before request ih =>
    rcases ih with ⟨capacity, hpos, hshows⟩
    have hafter := (hshows.answer request).2
    exact ⟨capacity, hpos, hafter.entries_eq ▸ hafter⟩

theorem Shows.views (h : Shows cache capacity entries) (requests : List (CacheRequest κ ν)) :
    cache.views requests = entries.views capacity requests := by
  induction requests generalizing cache entries with
  | nil => rfl
  | cons request requests ih =>
    rcases h.answer request with ⟨hanswer, hafter⟩
    simp only [LruCache.views, RecencyList.views, hanswer, hafter.size_eq, hafter.keys_eq,
      ih hafter]

/-- No run of requests to a new cache tells it from a recency list that starts out empty: neither
the answers nor the sizes nor the keys in their order differ. -/
theorem views_eq_recencyList (hcapacity : 0 < capacity) (requests : List (CacheRequest κ ν)) :
    ∃ cache : LruCache κ ν, create capacity = .ok cache ∧
      cache.views requests = RecencyList.views capacity [] requests := by
  refine ⟨LruCache.empty capacity, ?_, (Shows.empty hcapacity).views requests⟩
  rw [create, if_neg (Nat.ne_of_gt hcapacity)]

theorem views_eq_recencyList_two_slots :
    ∃ cache : LruCache String Nat, create 2 = .ok cache ∧
      cache.views [.set "a" 1, .set "b" 2, .get "a", .set "c" 3, .contains "b", .set "a" 4] =
        [⟨.evicted none, 1, ["a"]⟩, ⟨.evicted none, 2, ["b", "a"]⟩, ⟨.found (some 1), 2, ["a", "b"]⟩,
          ⟨.evicted (some ("b", 2)), 2, ["c", "a"]⟩, ⟨.present false, 2, ["c", "a"]⟩,
          ⟨.evicted none, 2, ["a", "c"]⟩] := by
  have hcapacity : 0 < 2 := by decide
  rcases views_eq_recencyList hcapacity
    ([.set "a" 1, .set "b" 2, .get "a", .set "c" 3, .contains "b", .set "a" 4] :
      List (CacheRequest String Nat)) with ⟨cache, hcreate, hviews⟩
  refine ⟨cache, hcreate, hviews.trans ?_⟩
  decide

end Runs

end LruCache
end BuildTree
