import BuildTree.Proofs.Dependency.Recording

/-!
# Blank sources — sources that a graph counts though they have no imports

Noting an import makes its source one that has imports.  But a text may list a source with no
imports at all, and the graph of the text counts it.  Such a source stays blank until one of its
imports is noted or another graph is loaded.  So the size of a graph is the number of sources with
imports and of blank ones, and which ones are blank can be told from the history of calls.
-/

namespace BuildTree

namespace ImportGraph

/-! ## Graphs -/

section Graphs

variable {graph : ImportGraph} {source imported other : String}

/-- The sources of a graph that have no imports. -/
def blankSources (graph : ImportGraph) : List String :=
  (graph.toList.filter (·.2 = [])).map Prod.fst

theorem mem_blankSources_iff : source ∈ graph.blankSources ↔
    ∃ list, graph.imports[source]? = some list ∧ list.order = [] := by
  rw [← mem_toList_iff]
  simp only [blankSources, List.mem_map, List.mem_filter, decide_eq_true_eq, Prod.exists,
    exists_and_right, exists_eq_right]

/-- No source is listed twice. -/
theorem nodup_map_fst_filter (graph : ImportGraph) (p : String × List String → Bool) :
    ((graph.toList.filter p).map Prod.fst).Nodup := by
  refine List.Nodup.sublist (List.filter_sublist.map Prod.fst) ?_
  rw [map_fst_toList]
  exact Std.ExtTreeMap.nodup_keys

/-- Every source that is counted has imports or is blank. -/
theorem size_eq (graph : ImportGraph) :
    graph.size = graph.sources.length + graph.blankSources.length := by
  have hsize : graph.size = graph.toList.length := by
    rw [size, toList, List.length_map, Std.ExtTreeMap.length_toList]
  have hrest : graph.toList.filter (fun entry => !decide (entry.2 ≠ [])) =
      graph.toList.filter (·.2 = []) := by
    refine List.filter_congr fun entry _ => ?_
    by_cases hnone : entry.2 = [] <;> simp [hnone]
  rw [hsize, List.length_eq_length_filter_add (fun entry => decide (entry.2 ≠ [])), hrest, sources,
    blankSources, List.length_map, List.length_map]

theorem records_eq_nil_iff : graph.records = [] ↔ graph.sources = [] := by
  rw [records_eq, List.flatMap_eq_nil_iff]
  constructor
  · intro hnone
    rw [List.eq_nil_iff_forall_not_mem]
    intro source hsource
    exact mem_sources_iff.1 hsource (List.map_eq_nil_iff.1 (hnone source hsource))
  · intro hnone source hsource
    rw [hnone] at hsource
    cases hsource

theorem isEmpty_iff :
    graph.isEmpty = true ↔ graph.records = [] ∧ graph.blankSources = [] := by
  have hsize : graph.isEmpty = (graph.size == 0) := Std.ExtTreeMap.isEmpty_eq_size_beq_zero
  rw [hsize, beq_iff_eq, size_eq, Nat.add_eq_zero_iff, List.length_eq_zero_iff,
    List.length_eq_zero_iff, records_eq_nil_iff]

/-- Noting an import takes its source from the blank ones and changes no other. -/
theorem mem_blankSources_note_iff : source ∈ (graph.note other imported).2.blankSources ↔
    other ≠ source ∧ source ∈ graph.blankSources := by
  rw [mem_blankSources_iff, mem_blankSources_iff]
  by_cases hsource : other = source
  · subst hsource
    refine iff_of_false ?_ fun h => h.1 rfl
    rintro ⟨list, hheld, hnone⟩
    rw [getElem?_note_self] at hheld
    -- The import that was noted is one of those that are kept.
    have hnoted : imported ∈ list.order := by
      rw [← Option.some.inj hheld]
      exact OrderedImports.mem_foldl_note_iff.2 (Or.inr (List.mem_singleton_self imported))
    rw [hnone] at hnoted
    cases hnoted
  · rw [getElem?_note_of_ne hsource]
    exact ⟨fun h => ⟨hsource, h⟩, fun h => h.2⟩

end Graphs

/-! ## Texts -/

/-- The text is that of a graph, and it lists the source without imports: so does the last of its
members that have the name of the source. -/
def ListsBlank (text source : String) : Prop :=
  (parse? text).isSome ∧ ∃ members, Json.parse text = some (.object members) ∧
    members.reverse.lookup source = some (.array [])

section Texts

variable {graph : ImportGraph} {text source : String}

theorem order_ofList_eq_nil_iff {imports : List String} :
    (OrderedImports.ofList imports).order = [] ↔ imports = [] := by
  simp only [List.eq_nil_iff_forall_not_mem, OrderedImports.ofList,
    OrderedImports.mem_foldl_note_iff, OrderedImports.empty, List.not_mem_nil, false_or]

theorem strings?_eq_nil_iff {value : Json} : value.strings? = some [] ↔ value = .array [] := by
  cases value with
  | array elements =>
    rw [Json.strings?, Json.array?, Option.bind_some, mapM_eq_some_iff, List.forall₂_nil_right_iff,
      Json.array.injEq]
  | _ => simp [Json.strings?, Json.array?]

/-- What is read for a source is what its member lists. -/
theorem lookup_of_entries {members : List (String × Json)} {lists : List (String × OrderedImports)}
    (h : List.Forall₂ (fun member entry => entryOf? member = some entry) members lists)
    (source : String) :
    lists.lookup source =
      (members.lookup source).bind fun value => value.strings?.map OrderedImports.ofList := by
  induction h with
  | nil => rfl
  | @cons member entry members lists hentry hrest ih =>
    rcases member with ⟨name, value⟩
    rcases Option.map_eq_some_iff.1 hentry with ⟨imports, hvalue, rfl⟩
    rw [List.lookup_cons, List.lookup_cons]
    dsimp only at hvalue ⊢
    split
    · rw [Option.bind_some, hvalue, Option.map_some]
    · exact ih

theorem getElem?_parse {members : List (String × Json)} (hparse : parse? text = some graph)
    (hjson : Json.parse text = some (.object members)) (source : String) :
    graph.imports[source]? =
      (members.reverse.lookup source).bind fun value =>
        value.strings?.map OrderedImports.ofList := by
  rw [parse?, hjson, Option.bind_some, ofJson?] at hparse
  rcases Option.bind_eq_some_iff.1 hparse with ⟨lists, hread, hgraph⟩
  have hentries : List.Forall₂ (fun member entry => entryOf? member = some entry) members lists :=
    mapM_eq_some_iff.1 hread
  cases hgraph
  rw [← lookup_of_entries (List.forall₂_reverse_iff.2 hentries), getElem?_foldl_insert,
    Std.ExtTreeMap.getElem?_empty, Option.or_none]

theorem exists_members_of_parse (h : parse? text = some graph) :
    ∃ members, Json.parse text = some (.object members) := by
  rcases Option.bind_eq_some_iff.1 h with ⟨value, hjson, hgraph⟩
  cases value with
  | object members => exact ⟨members, hjson⟩
  | _ => cases hgraph

theorem mem_blankSources_parse_iff (h : parse? text = some graph) :
    source ∈ graph.blankSources ↔ ListsBlank text source := by
  rcases exists_members_of_parse h with ⟨members, hjson⟩
  rw [mem_blankSources_iff, getElem?_parse h hjson]
  constructor
  · rintro ⟨list, hheld, hnone⟩
    rcases Option.bind_eq_some_iff.1 hheld with ⟨value, hmember, hvalue⟩
    rcases Option.map_eq_some_iff.1 hvalue with ⟨imports, himports, rfl⟩
    rw [order_ofList_eq_nil_iff.1 hnone, strings?_eq_nil_iff] at himports
    rw [himports] at hmember
    exact ⟨by rw [h]; rfl, members, hjson, hmember⟩
  · rintro ⟨-, others, hothers, hmember⟩
    rw [hjson] at hothers
    cases hothers
    rw [hmember]
    exact ⟨_, rfl, rfl⟩

end Texts

end ImportGraph

/-! ## Histories -/

namespace ImportCall

/-- A call that keeps a blank source blank: it notes an import of another source, or its text is no
graph. -/
def Spares (source : String) : ImportCall → Prop
  | .note other _ => other ≠ source
  | .load text => ImportGraph.parse? text = none

/-- A graph that lists the source without imports was loaded, and every call since then spared the
source. -/
def LeavesBlank (calls : List ImportCall) (source : String) : Prop :=
  ∃ before text after, calls = before ++ .load text :: after ∧
    ImportGraph.ListsBlank text source ∧ ∀ call ∈ after, call.Spares source

/-- A source is blank after a call just if it was blank and was spared, or if the call loaded it so. -/
theorem mem_blankSources_apply_iff {graph : ImportGraph} {call : ImportCall} {source : String} :
    source ∈ (apply graph call).blankSources ↔
      (call.Spares source ∧ source ∈ graph.blankSources) ∨
        ∃ text, call = .load text ∧ ImportGraph.ListsBlank text source := by
  cases call with
  | note other imported =>
    rw [apply, ImportGraph.mem_blankSources_note_iff]
    simp [Spares]
  | load text =>
    rw [apply, Spares]
    cases hparse : ImportGraph.parse? text with
    | none =>
      have hnot : ¬ImportGraph.ListsBlank text source := fun hlists => by
        rw [ImportGraph.ListsBlank, hparse] at hlists
        exact Bool.false_ne_true hlists.1
      simp [hnot]
    | some loaded =>
      rw [Option.getD_some, ImportGraph.mem_blankSources_parse_iff hparse]
      simp

theorem leavesBlank_concat_iff {calls : List ImportCall} {call : ImportCall} {source : String} :
    LeavesBlank (calls ++ [call]) source ↔
      (call.Spares source ∧ LeavesBlank calls source) ∨
        ∃ text, call = .load text ∧ ImportGraph.ListsBlank text source := by
  constructor
  · rintro ⟨before, text, after, hsplit, hlists, hspared⟩
    rcases List.eq_nil_or_concat after with rfl | ⟨after, last, rfl⟩
    · rcases List.append_inj' hsplit rfl with ⟨-, hcall⟩
      exact Or.inr ⟨text, List.singleton_inj.1 hcall, hlists⟩
    · rw [List.concat_eq_append, ← List.cons_append, ← List.append_assoc] at hsplit
      rcases List.append_inj' hsplit rfl with ⟨rfl, hcall⟩
      obtain rfl := List.singleton_inj.1 hcall
      refine Or.inl ⟨hspared call (by simp), before, text, after, rfl, hlists, ?_⟩
      exact fun other hother => hspared other (by simp [hother])
  · rintro (⟨hlast, before, text, after, rfl, hlists, hspared⟩ | ⟨text, rfl, hlists⟩)
    · refine ⟨before, text, after ++ [call], by simp, hlists, fun other hother => ?_⟩
      rcases List.mem_append.1 hother with hearlier | hnew
      · exact hspared other hearlier
      · rwa [List.mem_singleton.1 hnew]
    · exact ⟨calls, text, [], rfl, hlists, fun _ hnone => absurd hnone List.not_mem_nil⟩

/-- After any calls the blank sources are those that the calls leave so. -/
theorem mem_blankSources_runAll_iff (calls : List ImportCall) (source : String) :
    source ∈ (runAll calls).blankSources ↔ LeavesBlank calls source := by
  induction calls using List.reverseRecOn with
  | nil =>
    refine iff_of_false ?_ ?_
    · rw [ImportGraph.mem_blankSources_iff]
      rintro ⟨list, hheld, -⟩
      cases hheld
    · rintro ⟨before, text, after, hsplit, -⟩
      simp at hsplit
  | append_singleton calls call ih =>
    have hstep : runAll (calls ++ [call]) = apply (runAll calls) call := List.foldl_concat _ _ _ _
    rw [hstep, mem_blankSources_apply_iff, leavesBlank_concat_iff, ih]

/-- After any calls a graph counts the sources that have imports and those that the calls leave
blank, and it is empty just if it has no records and none is left blank. -/
theorem size_runAll (calls : List ImportCall) :
    ∃ sources blank : List String, sources.Nodup ∧ blank.Nodup ∧
      (∀ source, source ∈ sources ↔ (runAll calls).importsOf source ≠ []) ∧
      (∀ source, source ∈ blank ↔ LeavesBlank calls source) ∧
      (runAll calls).size = sources.length + blank.length ∧
      ((runAll calls).isEmpty = true ↔
        (runAll calls).records = [] ∧ ∀ source, ¬LeavesBlank calls source) := by
  refine ⟨(runAll calls).sources, (runAll calls).blankSources,
    (runAll calls).nodup_map_fst_filter _, (runAll calls).nodup_map_fst_filter _,
    fun source => ImportGraph.mem_sources_iff, mem_blankSources_runAll_iff calls,
    (runAll calls).size_eq, ?_⟩
  rw [ImportGraph.isEmpty_iff, List.eq_nil_iff_forall_not_mem (l := (runAll calls).blankSources)]
  simp only [mem_blankSources_runAll_iff]

/-- A source that a text lists without imports is counted, and it keeps the graph from being empty
though there is no record. -/
theorem blank_source_counted :
    (runAll [.load "\x7b\"/a.ts\": []\x7d"]).size = 1 ∧
      (runAll [.load "\x7b\"/a.ts\": []\x7d"]).isEmpty = false ∧
      (runAll [.load "\x7b\"/a.ts\": []\x7d"]).records = [] ∧
      ∀ source, (runAll [.load "\x7b\"/a.ts\": []\x7d"]).importsOf source = [] := by
  have hrecords : (runAll [.load "\x7b\"/a.ts\": []\x7d"]).records = [] := by decide +kernel
  refine ⟨by decide +kernel, by decide +kernel, hrecords, fun source => ?_⟩
  rw [List.eq_nil_iff_forall_not_mem]
  intro imported himported
  rw [← ImportGraph.mem_records_iff, hrecords] at himported
  cases himported

end ImportCall
end BuildTree
