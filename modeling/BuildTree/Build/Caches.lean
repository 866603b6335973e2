import BuildTree.Plan.Basic
import BuildTree.Text.Summary

/-!
# Build caches — what builds share

The decoded archives and the parsed sources that one build leaves to the next.
-/

namespace BuildTree

universe u

/-- The caches that builds share; `σ` is the parsed form of a source. -/
structure BuildCaches (σ : Type u) where
  archives : DecodedArchives
  sources : ParseCache σ

namespace BuildCaches

variable {σ : Type u}

/-- Empty caches of the given sizes; a size of zero is a fault. -/
def create (sizes : CacheSection) : Except Fault (BuildCaches σ) :=
  match LruCache.create sizes.archiveCapacity, ParseCache.create sizes.sourceCapacity with
  | .error fault, _ => .error fault
  | _, .error fault => .error fault
  | .ok archives, .ok sources => .ok ⟨archives, sources⟩

def summary (caches : BuildCaches σ) : String :=
  Summary.record "BuildSession"
    [("archives", toString caches.archives.size), ("sources", toString caches.sources.size)]

end BuildCaches
end BuildTree
