import BuildTree.Dependency.ImportGraph
import BuildTree.Proofs.Json.Records
import BuildTree.Proofs.Tree.FileMap

/-!
# Import graphs — a graph is read back from its text

The text of a graph has one member for each source and one element for each of its imports.  A graph
repeats none of them, so noting them again one after the other gives the same list.  A graph that is
written and loaded somewhere in a history of calls is therefore the graph that it was.
-/

namespace BuildTree

namespace OrderedImports

/-- Imports in the same order are the same, since the set beside them has no others. -/
theorem eq_of_order {list other : OrderedImports} (h : list.order = other.order) : list = other := by
  have hseen : list.seen = other.seen := by
    refine Std.ExtTreeSet.ext_mem fun imported => ?_
    rw [list.mem_seen, other.mem_seen, h]
  cases list
  cases other
  cases h
  cases hseen
  rfl

theorem note_eq_of_mem {list : OrderedImports} {imported : String} (h : imported ∈ list.order) :
    list.note imported = list := by
  rw [note, dif_pos ((list.mem_seen imported).2 h)]

theorem note_eq_of_notMem {list : OrderedImports} {imported : String} (h : imported ∉ list.order) :
    (list.note imported).order = list.order ++ [imported] := by
  rw [note, dif_neg (mt (list.mem_seen imported).1 h)]

theorem order_foldl_note {list : OrderedImports} {imports : List String}
    (h : (list.order ++ imports).Nodup) :
    (imports.foldl note list).order = list.order ++ imports := by
  induction imports generalizing list with
  | nil => exact (List.append_nil _).symm
  | cons imported imports ih =>
    -- An import that is noted again would be repeated.
    have hnew : imported ∉ list.order := by
      intro hmem
      exact (List.nodup_append.1 h).2.2 imported hmem imported List.mem_cons_self rfl
    have horder := note_eq_of_notMem hnew
    have hrest : ((list.note imported).order ++ imports).Nodup := by
      rw [horder, List.append_assoc]
      exact h
    rw [List.foldl_cons, ih hrest, horder, List.append_assoc]
    rfl

/-- Imports that are noted in their order are the same imports. -/
theorem ofList_order (list : OrderedImports) : ofList list.order = list :=
  eq_of_order (order_foldl_note list.nodup)

end OrderedImports

namespace ImportGraph

/-- The member that a source and its imports are written as. -/
def memberOf (entry : String × OrderedImports) : String × Json :=
  (entry.1, .array (entry.2.order.map .string))

/-- A source and its imports, read from a member. -/
def entryOf? (member : String × Json) : Option (String × OrderedImports) :=
  member.2.strings?.map fun imports => (member.1, OrderedImports.ofList imports)

theorem entryOf?_memberOf (entry : String × OrderedImports) :
    entryOf? (memberOf entry) = some entry := by
  rw [entryOf?, memberOf, Json.strings?_map_string, Option.map_some, OrderedImports.ofList_order]

theorem toJson_eq (graph : ImportGraph) :
    graph.toJson = .object (graph.imports.toList.map memberOf) := by
  rw [toJson, toList, List.map_map]
  rfl

theorem plain_toJson (graph : ImportGraph) : graph.toJson.Plain := by
  rw [toJson_eq]
  refine .object fun member hmember => ?_
  rcases List.mem_map.1 hmember with ⟨entry, -, rfl⟩
  refine .array fun value hvalue => ?_
  rcases List.mem_map.1 hvalue with ⟨imported, -, rfl⟩
  exact .string imported

theorem ofJson?_toJson (graph : ImportGraph) : ofJson? graph.toJson = some graph := by
  have hread := mapM_map_eq_some entryOf?_memberOf graph.imports.toList
  have hfold := foldl_insert_toList graph.imports
  rw [toJson_eq, ofJson?]
  -- Each member is read as the entry that it was written from.
  change ((graph.imports.toList.map memberOf).mapM entryOf?).bind _ = _
  rw [hread, Option.bind_some]
  exact congrArg (fun imports => some (ImportGraph.mk imports)) hfold

/-- A graph is read back from its text. -/
theorem parse?_render (graph : ImportGraph) : parse? graph.render = some graph := by
  rw [parse?, render, Json.parse_pretty graph.plain_toJson, Option.bind_some,
    ofJson?_toJson]

end ImportGraph

/-! ## Histories -/

/-- A call that changes a graph. -/
inductive ImportCall
  /-- A source was seen to import a file. -/
  | note (source imported : String)
  /-- The graph of a text takes the place of the one so far. -/
  | load (text : String)

namespace ImportCall

/-- The graph after a call; a text that is no graph leaves it as it is. -/
def apply (graph : ImportGraph) : ImportCall → ImportGraph
  | .note source imported => (graph.note source imported).2
  | .load text => (ImportGraph.parse? text).getD graph

/-- The graph after calls, one after the other, on an empty one. -/
def runAll (calls : List ImportCall) : ImportGraph :=
  calls.foldl apply .empty

/-- What a graph is written as can be loaded in its place. -/
theorem apply_load_render (graph : ImportGraph) : apply graph (.load graph.render) = graph := by
  rw [apply, ImportGraph.parse?_render, Option.getD_some]

/-- After any calls the graph is read back from its text, with the same sources and the same imports
in the same order, and loading it there changes nothing for the calls that follow. -/
theorem parse?_render_runAll (calls : List ImportCall) :
    ImportGraph.parse? (runAll calls).render = some (runAll calls) ∧
      ∀ later, runAll (calls ++ .load (runAll calls).render :: later) = runAll (calls ++ later) := by
  refine ⟨ImportGraph.parse?_render (runAll calls), fun later => ?_⟩
  calc
    runAll (calls ++ .load (runAll calls).render :: later) =
        later.foldl apply (apply (runAll calls) (.load (runAll calls).render)) := by
      rw [runAll, List.foldl_append, List.foldl_cons, runAll]
    _ = later.foldl apply (runAll calls) := by rw [apply_load_render]
    _ = runAll (calls ++ later) := by rw [runAll, runAll, List.foldl_append]

end ImportCall
end BuildTree
