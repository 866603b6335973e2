import BuildTree.Cache.Lru
import BuildTree.Digest.ContentKey

/-!
# Parse caches — parsed files by content

A parsed file is kept under the key of its name, its text and the language version it was parsed
for, so a file is parsed again exactly when one of the three differs or its entry was evicted.
-/

namespace BuildTree

universe w

/-- Parsed files `σ`, keyed by content. -/
structure ParseCache (σ : Type w) where
  cache : LruCache ContentKey σ
  /-- How often a file was parsed because its parsed form was not held. -/
  misses : Nat

namespace ParseCache

variable {σ : Type w}

/-- The number of parsed files that a cache holds unless told otherwise. -/
def defaultCapacity : Nat := 1500

/-- The empty cache; room for no file at all is a fault. -/
def create (capacity : Nat) : Except Fault (ParseCache σ) :=
  (LruCache.create capacity).map fun cache => ⟨cache, 0⟩

def key (name text languageVersion : String) : ContentKey :=
  ContentKey.ofParts
    [Bytes.ofString name, Bytes.ofString text, Bytes.ofString languageVersion]

def size (sources : ParseCache σ) : Nat :=
  sources.cache.size

def summary (sources : ParseCache σ) : String :=
  Summary.record "SourceCache" [("len", toString sources.size)]

/-- Whether a parsed file is held; this does not count as a use. -/
def contains (sources : ParseCache σ) (name text languageVersion : String) : Bool :=
  sources.cache.contains (key name text languageVersion)

/-- The parsed form of a file: the one held, which counts as a use, or else what `parse` makes of
it now. -/
def getOrParse (sources : ParseCache σ) (name text languageVersion : String)
    (parse : Unit → σ) : σ × ParseCache σ :=
  let k := key name text languageVersion
  match sources.cache.get k with
  | (some hit, cache) => (hit, ⟨cache, sources.misses⟩)
  | (none, cache) =>
      let parsed := parse ()
      (parsed, ⟨(cache.set k parsed).2, sources.misses + 1⟩)

end ParseCache
end BuildTree
