import BuildTree.Proofs.Dependency.ImportGraph
import BuildTree.Proofs.Text.Utf8

/-!
# Recording imports — what noting pairs makes of a graph

Noting a pair changes the imports of its own source only, and it puts an import behind those that
are there already.  So what a source has in the end depends on what it had and on the pairs that
name it, in their order: its imports before, then the others, each where it was noted first.
-/

namespace BuildTree

namespace OrderedImports

/-- Imports that are noted come behind those before, each at its first place. -/
theorem order_foldl_note_eq (list : OrderedImports) (imports : List String) :
    (imports.foldl note list).order =
      list.order ++ (imports.filter (· ∉ list.order)).eraseDups := by
  induction imports generalizing list with
  | nil => exact (List.append_nil _).symm
  | cons imported imports ih =>
    rw [List.foldl_cons, ih]
    by_cases hmem : imported ∈ list.order
    · rw [note_eq_of_mem hmem, List.filter_cons_of_neg (by simpa using hmem)]
    · -- From here on the import that was noted is one of those before.
      have hrest : imports.filter (· ∉ list.order ++ [imported]) =
          (imports.filter (· ∉ list.order)).filter (fun other => !other == imported) := by
        rw [List.filter_filter]
        refine List.filter_congr fun other _ => ?_
        by_cases hother : other = imported <;> simp [hother]
      rw [note_eq_of_notMem hmem, hrest, List.filter_cons_of_pos (by simpa using hmem),
        List.eraseDups_cons, List.append_assoc]
      rfl

theorem mem_foldl_note_iff {list : OrderedImports} {imports : List String} {imported : String} :
    imported ∈ (imports.foldl note list).order ↔ imported ∈ list.order ∨ imported ∈ imports := by
  rw [order_foldl_note_eq, List.mem_append, List.mem_eraseDups, List.mem_filter]
  by_cases hheld : imported ∈ list.order <;> simp [hheld]

end OrderedImports

/-- What adds nothing to a list can be left out before the rest is put together. -/
theorem flatMap_filter_of_nil {α β : Type} {xs : List α} {p : α → Bool} {f : α → List β}
    (h : ∀ x ∈ xs, p x = false → f x = []) : (xs.filter p).flatMap f = xs.flatMap f := by
  induction xs with
  | nil => rfl
  | cons x xs ih =>
    have hrest := ih fun y hy => h y (List.mem_cons_of_mem x hy)
    cases hx : p x with
    | false => rw [List.filter_cons_of_neg (by simp [hx]), hrest, List.flatMap_cons,
        h x List.mem_cons_self hx, List.nil_append]
    | true => rw [List.filter_cons_of_pos hx, List.flatMap_cons, hrest, List.flatMap_cons]

namespace ImportGraph

/-! ## What a graph lists -/

section Listing

variable {graph : ImportGraph} {source imported : String} {imports : List String}

theorem importsOf_eq (graph : ImportGraph) (source : String) :
    graph.importsOf source = ((graph.imports[source]?).getD .empty).order := by
  rw [importsOf]
  cases graph.imports[source]? <;> rfl

theorem mem_toList_iff : (source, imports) ∈ graph.toList ↔
    ∃ list, graph.imports[source]? = some list ∧ list.order = imports := by
  simp only [toList, List.mem_map, Prod.exists, Prod.mk.injEq,
    Std.ExtTreeMap.mem_toList_iff_getElem?_eq_some]
  constructor
  · rintro ⟨_, list, hheld, rfl, horder⟩
    exact ⟨list, hheld, horder⟩
  · rintro ⟨list, hheld, horder⟩
    exact ⟨source, list, hheld, rfl, horder⟩

theorem importsOf_of_mem_toList (h : (source, imports) ∈ graph.toList) :
    graph.importsOf source = imports := by
  rcases mem_toList_iff.1 h with ⟨list, hheld, horder⟩
  rw [importsOf_eq, hheld, ← horder]
  rfl

theorem mem_toList_of_importsOf (h : graph.importsOf source ≠ []) :
    (source, graph.importsOf source) ∈ graph.toList := by
  rw [importsOf_eq] at h ⊢
  rw [mem_toList_iff]
  cases hheld : graph.imports[source]? with
  | none => exact absurd (by rw [hheld]; rfl) h
  | some list => exact ⟨list, rfl, rfl⟩

theorem mem_records_iff :
    (source, imported) ∈ graph.records ↔ imported ∈ graph.importsOf source := by
  simp only [records, List.mem_flatMap, List.mem_map, Prod.exists, Prod.mk.injEq]
  constructor
  · rintro ⟨_, imports, hlisted, _, himported, rfl, rfl⟩
    rw [importsOf_of_mem_toList hlisted]
    exact himported
  · intro himported
    have hlisted := mem_toList_of_importsOf (List.ne_nil_of_mem himported)
    exact ⟨source, _, hlisted, imported, himported, rfl, rfl⟩

theorem nodup_importsOf (graph : ImportGraph) (source : String) :
    (graph.importsOf source).Nodup := by
  rw [importsOf_eq]
  exact OrderedImports.nodup _

/-- The sources of a graph that have imports. -/
def sources (graph : ImportGraph) : List String :=
  (graph.toList.filter (·.2 ≠ [])).map Prod.fst

theorem mem_sources_iff : source ∈ graph.sources ↔ graph.importsOf source ≠ [] := by
  simp only [sources, List.mem_map, List.mem_filter, decide_eq_true_eq, Prod.exists,
    exists_and_right, exists_eq_right]
  constructor
  · rintro ⟨imports, hlisted, hsome⟩
    rwa [importsOf_of_mem_toList hlisted]
  · intro hsome
    exact ⟨_, mem_toList_of_importsOf hsome, hsome⟩

theorem map_fst_toList (graph : ImportGraph) :
    graph.toList.map Prod.fst = graph.imports.keys := by
  rw [toList, List.map_map, ← Std.ExtTreeMap.map_fst_toList_eq_keys]
  rfl

/-- The sources that are listed come in the order of their octets. -/
theorem ascending_toList (graph : ImportGraph) :
    (graph.toList.map Prod.fst).Pairwise fun a b => Bytes.ofString a < Bytes.ofString b := by
  rw [map_fst_toList]
  exact Std.ExtTreeMap.ordered_keys.imp Utf8.ofString_lt

theorem ascending_sources (graph : ImportGraph) :
    graph.sources.Pairwise fun a b => Bytes.ofString a < Bytes.ofString b :=
  graph.ascending_toList.sublist (List.filter_sublist.map Prod.fst)

/-- The records are the imports of one source after the other. -/
theorem records_eq (graph : ImportGraph) :
    graph.records = graph.sources.flatMap fun source => (graph.importsOf source).map (source, ·) := by
  have hblank : ∀ entry ∈ graph.toList, decide (entry.2 ≠ []) = false →
      entry.2.map (entry.1, ·) = [] := by
    intro entry _ hnone
    rw [List.map_eq_nil_iff]
    simpa using hnone
  have hlisted : ∀ entry ∈ graph.toList.filter (·.2 ≠ []),
      entry.2.map (entry.1, ·) = (graph.importsOf entry.1).map (entry.1, ·) := by
    intro entry hentry
    rw [importsOf_of_mem_toList (List.mem_of_mem_filter hentry)]
  calc
    graph.records = graph.toList.flatMap fun entry => entry.2.map (entry.1, ·) := rfl
    _ = (graph.toList.filter (·.2 ≠ [])).flatMap fun entry => entry.2.map (entry.1, ·) :=
      (flatMap_filter_of_nil hblank).symm
    _ = (graph.toList.filter (·.2 ≠ [])).flatMap fun entry =>
          (graph.importsOf entry.1).map (entry.1, ·) := List.flatMap_congr hlisted
    _ = graph.sources.flatMap fun source => (graph.importsOf source).map (source, ·) := by
      rw [sources, List.flatMap_map]

end Listing

/-! ## Noting pairs -/

/-- The imports that pairs name for a source, in their order. -/
def importsIn (source : String) (pairs : List (String × String)) : List String :=
  (pairs.filter (·.1 = source)).map Prod.snd

/-- Notes pairs one after the other: which of them were new, and the graph after them. -/
def noteAll (graph : ImportGraph) : List (String × String) → List Bool × ImportGraph
  | [] => ([], graph)
  | (source, imported) :: pairs =>
      let noted := graph.note source imported
      let rest := noted.2.noteAll pairs
      (noted.1 :: rest.1, rest.2)

section Noting

variable {graph : ImportGraph} {source imported other : String} {pairs : List (String × String)}

theorem importsIn_cons_self (pairs : List (String × String)) :
    importsIn source ((source, imported) :: pairs) = imported :: importsIn source pairs := by
  rw [importsIn, List.filter_cons_of_pos (by simp)]
  rfl

theorem importsIn_cons_of_ne (h : other ≠ source) (pairs : List (String × String)) :
    importsIn source ((other, imported) :: pairs) = importsIn source pairs := by
  rw [importsIn, List.filter_cons_of_neg (by simpa using h)]
  rfl

theorem mem_importsIn_iff : imported ∈ importsIn source pairs ↔ (source, imported) ∈ pairs := by
  simp [importsIn]

/-- A pair is new just if it is not recorded. -/
theorem fst_note (graph : ImportGraph) (source imported : String) :
    (graph.note source imported).1 = decide ((source, imported) ∉ graph.records) := by
  rw [note]
  refine decide_eq_decide.2 (not_congr ?_)
  rw [OrderedImports.mem_seen, ← importsOf_eq, mem_records_iff]

theorem getElem?_note_self (graph : ImportGraph) (source imported : String) :
    (graph.note source imported).2.imports[source]? =
      some (((graph.imports[source]?).getD .empty).note imported) :=
  Std.ExtTreeMap.getElem?_insert_self

theorem getElem?_note_of_ne (h : source ≠ other) (graph : ImportGraph) (imported : String) :
    (graph.note source imported).2.imports[other]? = graph.imports[other]? := by
  rw [note, Std.ExtTreeMap.getElem?_insert, if_neg]
  rwa [Std.LawfulEqCmp.compare_eq_iff_eq]

/-- What is kept for a source changes only by the imports that the pairs name for it. -/
theorem getElem?_noteAll (graph : ImportGraph) (source : String) (pairs : List (String × String)) :
    (graph.noteAll pairs).2.imports[source]? =
      if importsIn source pairs = [] then graph.imports[source]?
      else some ((importsIn source pairs).foldl OrderedImports.note
        ((graph.imports[source]?).getD .empty)) := by
  induction pairs generalizing graph with
  | nil => rfl
  | cons pair pairs ih =>
    rcases pair with ⟨other, imported⟩
    rw [noteAll]
    dsimp only
    rw [ih]
    by_cases hsource : other = source
    · subst hsource
      rw [importsIn_cons_self, getElem?_note_self, if_neg (List.cons_ne_nil _ _), List.foldl_cons,
        Option.getD_some]
      split
      · rename_i hlast
        rw [hlast]
        rfl
      · rfl
    · rw [importsIn_cons_of_ne hsource, getElem?_note_of_ne hsource]

theorem importsOf_noteAll (graph : ImportGraph) (source : String) (pairs : List (String × String)) :
    (graph.noteAll pairs).2.importsOf source =
      ((importsIn source pairs).foldl OrderedImports.note
        ((graph.imports[source]?).getD .empty)).order := by
  rw [importsOf_eq, getElem?_noteAll]
  split
  · rename_i hnone
    rw [hnone]
    rfl
  · rfl

theorem mem_records_noteAll_iff (graph : ImportGraph) (pairs : List (String × String))
    (pair : String × String) :
    pair ∈ (graph.noteAll pairs).2.records ↔ pair ∈ graph.records ∨ pair ∈ pairs := by
  rcases pair with ⟨source, imported⟩
  rw [mem_records_iff, mem_records_iff, importsOf_noteAll, OrderedImports.mem_foldl_note_iff,
    mem_importsIn_iff, importsOf_eq]

/-- Each flag says whether its pair is missing from the graph that the pairs before it left. -/
theorem fst_noteAll (graph : ImportGraph) (pairs : List (String × String)) :
    (graph.noteAll pairs).1 =
      pairs.mapIdx fun k pair => decide (pair ∉ (graph.noteAll (pairs.take k)).2.records) := by
  induction pairs generalizing graph with
  | nil => rfl
  | cons pair pairs ih =>
    rcases pair with ⟨source, imported⟩
    rw [noteAll, List.mapIdx_cons]
    dsimp only
    rw [ih, fst_note]
    rfl

/-- Graphs agree after pairs that name the same imports for each source in the same order. -/
theorem noteAll_congr {pairs others : List (String × String)}
    (h : ∀ source, importsIn source others = importsIn source pairs) :
    (graph.noteAll others).2 = (graph.noteAll pairs).2 := by
  have himports : (graph.noteAll others).2.imports = (graph.noteAll pairs).2.imports := by
    refine Std.ExtTreeMap.ext_getElem? fun source => ?_
    rw [getElem?_noteAll, getElem?_noteAll, h]
  exact congrArg ImportGraph.mk himports

/-- What a graph has become once pairs were noted in it. -/
structure Recorded (graph : ImportGraph) (pairs : List (String × String)) (after : ImportGraph) :
    Prop where
  /-- It has the pairs of before and those that were noted. -/
  mem_records_iff : ∀ pair, pair ∈ after.records ↔ pair ∈ graph.records ∨ pair ∈ pairs
  /-- The imports of a source are those of before and then the ones that are new, each where it was
  noted first. -/
  importsOf_eq : ∀ source, after.importsOf source = graph.importsOf source ++
    ((importsIn source pairs).filter (· ∉ graph.importsOf source)).eraseDups
  /-- No import of a source is repeated. -/
  nodup_importsOf : ∀ source, (after.importsOf source).Nodup
  /-- The records go through the sources that have imports, in the order of their octets. -/
  exists_sources : ∃ sources : List String,
    sources.Pairwise (fun a b => Bytes.ofString a < Bytes.ofString b) ∧
      (∀ source, source ∈ sources ↔ after.importsOf source ≠ []) ∧
      after.records = sources.flatMap fun source => (after.importsOf source).map (source, ·)

/-- Pairs that are noted one after the other are recorded, in a new graph as in one that was read
from a text.  Each call tells whether its pair was missing until then, and the graph after them
depends on the order within each source only. -/
theorem noteAll_recorded (graph : ImportGraph) (pairs : List (String × String)) :
    (graph.noteAll pairs).1 =
        pairs.mapIdx (fun k pair => decide (pair ∉ (graph.noteAll (pairs.take k)).2.records)) ∧
      Recorded graph pairs (graph.noteAll pairs).2 ∧
      ∀ others : List (String × String),
        (∀ source, others.filter (·.1 = source) = pairs.filter (·.1 = source)) →
          (graph.noteAll others).2 = (graph.noteAll pairs).2 := by
  refine ⟨graph.fst_noteAll pairs, ?_, fun others hsame => ?_⟩
  · exact {
      mem_records_iff := graph.mem_records_noteAll_iff pairs
      importsOf_eq := by
        intro source
        rw [importsOf_noteAll, OrderedImports.order_foldl_note_eq, ← importsOf_eq]
      nodup_importsOf := (graph.noteAll pairs).2.nodup_importsOf
      exists_sources :=
        ⟨_, ascending_sources _, fun source => mem_sources_iff, records_eq _⟩ }
  · exact noteAll_congr fun source => congrArg (List.map Prod.snd) (hsame source)

end Noting

end ImportGraph
end BuildTree
