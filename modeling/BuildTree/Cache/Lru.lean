import BuildTree.Fault
import BuildTree.Text.Summary
import Std.Data.ExtTreeMap

/-!
# LRU caches — bounded maps that forget the least recently used entry

Entries live in a slab of slots that are linked into one list, most recently used first, and an
index leads from a key to its slot.  Promotion, insertion and eviction touch a bounded number of
slots.  When the cache is full the slot at the tail is used again for the new entry.
-/

namespace BuildTree

universe u v

/-- One slot of the slab: an entry and its neighbours in the recency list. -/
structure LruSlot (κ : Type u) (ν : Type v) where
  key : κ
  value : ν
  /-- The slot used just after this one. -/
  newer : Option Nat
  /-- The slot used just before this one. -/
  older : Option Nat

/-- A bounded map with keys `κ` and values `ν`. -/
structure LruCache (κ : Type u) (ν : Type v) [Ord κ] where
  capacity : Nat
  index : Std.ExtTreeMap κ Nat
  slots : Array (LruSlot κ ν)
  /-- The slot used last. -/
  head : Option Nat
  /-- The slot whose use lies furthest back. -/
  tail : Option Nat

namespace LruCache

variable {κ : Type u} {ν : Type v} [Ord κ] [Std.TransOrd κ]

/-- The empty cache that holds at most `capacity` entries. -/
def empty (capacity : Nat) : LruCache κ ν :=
  { capacity, index := ∅, slots := #[], head := none, tail := none }

/-- The empty cache; room for no entry at all is a fault. -/
def create (capacity : Nat) : Except Fault (LruCache κ ν) :=
  if capacity = 0 then .error .zeroCapacity else .ok (empty capacity)

def size (cache : LruCache κ ν) : Nat :=
  cache.index.size

/-- Whether a key has an entry; this does not count as a use. -/
def contains (cache : LruCache κ ν) (key : κ) : Bool :=
  cache.index.contains key

/-- The entries from a slot on towards older ones, in at most `fuel` steps. -/
def entriesFrom (cache : LruCache κ ν) : (fuel : Nat) → Option Nat → List (κ × ν)
  | 0, _ => []
  | _, none => []
  | fuel + 1, some i =>
      match cache.slots[i]? with
      | none => []
      | some slot => (slot.key, slot.value) :: cache.entriesFrom fuel slot.older

/-- The entries, most recently used first. -/
def entries (cache : LruCache κ ν) : List (κ × ν) :=
  cache.entriesFrom cache.slots.size cache.head

def keys (cache : LruCache κ ν) : List κ :=
  cache.entries.map (·.1)

def summary (cache : LruCache String ν) : String :=
  Summary.record "RecencyCache"
    [("capacity", toString cache.capacity), ("keys", Quoted.quoteList cache.keys)]

def modifySlot (cache : LruCache κ ν) (i : Nat) (f : LruSlot κ ν → LruSlot κ ν) :
    LruCache κ ν :=
  { cache with slots := cache.slots.modify i f }

/-- Takes a slot out of the recency list: its neighbours become neighbours of each other. -/
def detach (cache : LruCache κ ν) (i : Nat) : LruCache κ ν :=
  match cache.slots[i]? with
  | none => cache
  | some slot =>
      let cache :=
        match slot.newer with
        | none => { cache with head := slot.older }
        | some n => cache.modifySlot n ({ · with older := slot.older })
      let cache :=
        match slot.older with
        | none => { cache with tail := slot.newer }
        | some o => cache.modifySlot o ({ · with newer := slot.newer })
      cache.modifySlot i ({ · with newer := none, older := none })

/-- Puts a slot that is in no list at the head. -/
def attachNewest (cache : LruCache κ ν) (i : Nat) : LruCache κ ν :=
  let head := cache.head
  let cache := cache.modifySlot i ({ · with newer := none, older := head })
  let cache :=
    match head with
    | none => { cache with tail := some i }
    | some h => cache.modifySlot h ({ · with newer := some i })
  { cache with head := some i }

def touch (cache : LruCache κ ν) (i : Nat) : LruCache κ ν :=
  if cache.head = some i then cache else (cache.detach i).attachNewest i

/-- The value of a key, which counts as a use. -/
def get (cache : LruCache κ ν) (key : κ) : Option ν × LruCache κ ν :=
  match cache.index[key]? with
  | none => (none, cache)
  | some i => ((cache.slots[i]?).map (·.value), cache.touch i)

/-- Gives a key a value, which counts as a use.  A new key in a full cache takes the place of the
entry whose use lies furthest back, and that entry is returned. -/
def set (cache : LruCache κ ν) (key : κ) (value : ν) :
    Option (κ × ν) × LruCache κ ν :=
  match cache.index[key]? with
  | some i => (none, (cache.modifySlot i ({ · with value })).touch i)
  | none =>
      if cache.index.size < cache.capacity then
        let i := cache.slots.size
        let cache := { cache with
          slots := cache.slots.push { key, value, newer := none, older := none }
          index := cache.index.insert key i }
        (none, cache.attachNewest i)
      else
        match cache.tail with
        | none => (none, cache)
        -- The entry at the tail goes, and its slot is used for the new one.
        | some i =>
            let cache := cache.detach i
            match cache.slots[i]? with
            | none => (none, cache)
            | some old =>
                let cache := cache.modifySlot i ({ · with key, value })
                let cache := { cache with index := (cache.index.erase old.key).insert key i }
                (some (old.key, old.value), cache.attachNewest i)

end LruCache
end BuildTree
