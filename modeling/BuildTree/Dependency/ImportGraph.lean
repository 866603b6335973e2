import BuildTree.Json.Parser
import BuildTree.Json.Printer
import Std.Data.ExtTreeMap
import Std.Data.ExtTreeSet

/-!
# Import graphs — which files each source was seen to import

For each source the graph keeps its imports without repetition, in the order in which they were
first noted, and beside them the set of them, which says what was noted before.  A graph is written
as a JSON object of lists and read back from one; in what is read, a repeated import counts once and
the last of several members with one name counts.
-/

namespace BuildTree

/-- Imports in the order in which they were first noted. -/
structure OrderedImports where
  order : List String
  /-- The same imports as a set, for looking them up. -/
  seen : Std.ExtTreeSet String
  nodup : order.Nodup
  mem_seen : ∀ imported, imported ∈ seen ↔ imported ∈ order
  deriving DecidableEq

namespace OrderedImports

def empty : OrderedImports :=
  ⟨[], ∅, List.nodup_nil, fun _ => iff_of_false Std.ExtTreeSet.not_mem_empty List.not_mem_nil⟩

/-- Notes an import, unless it was noted before. -/
def note (list : OrderedImports) (imported : String) : OrderedImports :=
  if h : imported ∈ list.seen then list
  else {
    order := list.order ++ [imported]
    seen := list.seen.insert imported
    nodup := by
      rw [List.nodup_append]
      refine ⟨list.nodup, by simp, ?_⟩
      intro a ha b hb
      have : b = imported := by simpa using hb
      rintro rfl
      exact h ((list.mem_seen imported).2 (this ▸ ha))
    mem_seen := by
      intro other
      rw [Std.ExtTreeSet.mem_insert, Std.LawfulEqCmp.compare_eq_iff_eq, list.mem_seen,
        List.mem_append, List.mem_singleton, or_comm, eq_comm] }

/-- The imports of a list, each at its first place. -/
def ofList (imports : List String) : OrderedImports :=
  imports.foldl note empty

end OrderedImports

/-- The imports of each source. -/
structure ImportGraph where
  imports : Std.ExtTreeMap String OrderedImports

namespace ImportGraph

def empty : ImportGraph := ⟨∅⟩

/-- Notes that a source imports a file; the flag says whether that is new. -/
def note (graph : ImportGraph) (source imported : String) : Bool × ImportGraph :=
  let list := (graph.imports[source]?).getD OrderedImports.empty
  (decide (imported ∉ list.seen), ⟨graph.imports.insert source (list.note imported)⟩)

def importsOf (graph : ImportGraph) (source : String) : List String :=
  ((graph.imports[source]?).map (·.order)).getD []

/-- The sources with their imports, by ascending source. -/
def toList (graph : ImportGraph) : List (String × List String) :=
  graph.imports.toList.map fun (source, list) => (source, list.order)

/-- The pairs of a source and an import of it, by ascending source. -/
def records (graph : ImportGraph) : List (String × String) :=
  graph.toList.flatMap fun (source, imports) => imports.map fun imported => (source, imported)

def size (graph : ImportGraph) : Nat :=
  graph.imports.size

def isEmpty (graph : ImportGraph) : Bool :=
  graph.imports.isEmpty

def ofRecords (records : List (String × String)) : ImportGraph :=
  records.foldl (fun graph (source, imported) => (graph.note source imported).2) empty

/-- Whether two graphs have the same sources with the same imports in the same order. -/
def same (graph other : ImportGraph) : Bool :=
  graph.toList == other.toList

def toJson (graph : ImportGraph) : Json :=
  .object (graph.toList.map fun (source, imports) => (source, .array (imports.map .string)))

/-- The graph of a JSON object of lists of texts. -/
def ofJson? : Json → Option ImportGraph
  | .object members => do
      let lists ← members.mapM fun (source, value) =>
        value.strings?.map fun imports => (source, OrderedImports.ofList imports)
      pure ⟨lists.foldl (fun graph (source, list) => graph.insert source list) ∅⟩
  | _ => none

def render (graph : ImportGraph) : String :=
  graph.toJson.pretty

def parse? (text : String) : Option ImportGraph :=
  (Json.parse text).bind ofJson?

end ImportGraph
end BuildTree
