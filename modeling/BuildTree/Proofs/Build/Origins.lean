import BuildTree.Proofs.Build.Served
import BuildTree.Proofs.Dependency.Audit

/-!
# Origins — an audit blames the archives that are read

Files and origins of a merge are kept in step, but they are asked for by different ways: a compiler
reads through the layers of a tree, and an audit looks a path up below the dependency root.  Both
lead to the last listed archive that has the path, unless a source hides the file from the compiler.
So what an audit reports as unowned is in no archive, and every other import is put down to the
archive that was read.
-/

namespace BuildTree

open LruCache

universe u

/-- The dependency archives of a request by name, each with what it holds, in request order. -/
def LoadedInputs.namedArchives (inputs : LoadedInputs) (request : TreeRequest) :
    List (String × FileMap) :=
  (request.archives.map (·.name)).zip inputs.dependencies

namespace Assembly

/-! ## Agreement -/

/-- The origins of an assembly agree with what a layer of mounted archives serves, and that layer
with what the assembly serves where it has no source. -/
structure OriginsAgree (assembly : Assembly) (dependencyRoot : String)
    (archives : List (String × FileMap)) (layer : FileTree) : Prop where
  has_origin_iff : ∀ path, Path.error? path = none →
    ((Audit.originOf? dependencyRoot assembly.origins path).isSome ↔
      (∃ below, Path.error? below = none ∧ Path.mount dependencyRoot below = path) ∧
        layer.hasFile path = .ok true)
  provided : ∀ path name, Path.error? path = none →
    Audit.originOf? dependencyRoot assembly.origins path = some name →
      ∃ below data, Path.seenFrom? path dependencyRoot = some below ∧
        MergedArchives.LastProvider archives below name data ∧ layer.read path = .ok (some data) ∧
        (path ∉ assembly.sources.map (·.text) → assembly.tree.read path = .ok (some data))

/-- Audits with the origins of an assembly agree with the archives: an unowned import is in none of
them, and every other import is put down to the one that provides it, which is the one that is read
unless there is a source under the same path. -/
structure AuditsAgree (assembly : Assembly) (dependencyRoot : String)
    (archives : List (String × FileMap)) : Prop where
  unowned : ∀ declared exempt imports finding,
    finding ∈ Audit.findings dependencyRoot declared exempt imports assembly.origins →
    finding.code = Audit.unownedImport →
      ∃ record ∈ imports.records, ∃ below, Path.seenFrom? record.2 dependencyRoot = some below ∧
        finding = Audit.unowned record.1 (Text.dropSlashes below) ∧
        ∀ archive ∈ archives, archive.2[below]? = none
  attributed : ∀ declared (record : String × String) below, Path.error? record.2 = none →
    Path.seenFrom? record.2 dependencyRoot = some below →
    (∃ archive ∈ archives, below ∈ archive.2) →
      ∃ name data, MergedArchives.LastProvider archives below name data ∧
        (record.2 ∉ assembly.sources.map (·.text) →
          assembly.tree.read record.2 = .ok (some data)) ∧
        ((Audit.IsDeclared declared name ∧
            Audit.judge dependencyRoot declared assembly.origins record = .used name) ∨
          (¬Audit.IsDeclared declared name ∧
            Audit.judge dependencyRoot declared assembly.origins record =
              .finding (Audit.undeclared record.1 (Text.dropSlashes below) name)))

section Layers

variable {assembly : Assembly} {dependencyRoot : String} {archives : List (String × FileMap)}
  {sourceLayer layer : FileTree} {held : String → Option Bytes}

/-- A merge that is mounted below sources agrees with its origins. -/
theorem originsAgree_of_layers (hroot : Path.error? dependencyRoot = none)
    (htree : assembly.tree = .layered [sourceLayer, layer])
    (horigins : assembly.origins = (MergedArchives.merge archives).origins)
    (hsources : ∀ path, Path.error? path = none → sourceLayer.Serves path (held path))
    (hheld : ∀ path, path ∉ assembly.sources.map (·.text) → held path = none)
    (hlayer : ∀ path, Path.error? path = none → layer.Serves path
      ((Path.seenFrom? path dependencyRoot).bind fun below =>
        (MergedArchives.merge archives).files[below]?)) :
    assembly.OriginsAgree dependencyRoot archives layer where
  has_origin_iff := by
    intro path hpath
    rw [(hlayer path hpath).2, Audit.originOf?, horigins]
    cases hseen : Path.seenFrom? path dependencyRoot with
    | none =>
      simp
    | some below =>
      -- What is seen of a path from the root is where the path is mounted.
      have hbelow := (Path.seenFrom?_eq_some_iff_mount hpath hroot).1 hseen
      rw [Option.bind_some, Option.bind_some, MergedArchives.isSome_origins_merge, Except.ok.injEq]
      exact (and_iff_right ⟨below, hbelow⟩).symm
  provided := by
    intro path name hpath horigin
    rcases Option.bind_eq_some_iff.1 horigin with ⟨below, hseen, hname⟩
    rw [horigins] at hname
    have hsome : ((MergedArchives.merge archives).files[below]?).isSome := by
      rw [← MergedArchives.isSome_origins_merge, hname]
      rfl
    rcases Option.isSome_iff_exists.1 hsome with ⟨data, hdata⟩
    have hserved := hlayer path hpath
    rw [hseen, Option.bind_some, hdata] at hserved
    refine ⟨below, data, hseen, MergedArchives.lastProvider_iff.2 ⟨hname, hdata⟩, hserved.1, ?_⟩
    intro hnoSource
    have hwhole := FileTree.Serves.layered_pair (hsources path hpath) hserved
    rw [hheld path hnoSource, Option.none_or] at hwhole
    rw [htree]
    exact hwhole.1

/-- Origins that agree make audits agree. -/
theorem OriginsAgree.auditsAgree (h : assembly.OriginsAgree dependencyRoot archives layer)
    (horigins : assembly.origins = (MergedArchives.merge archives).origins) :
    assembly.AuditsAgree dependencyRoot archives where
  unowned := by
    intro declared exempt imports finding hfinding hcode
    rcases Audit.exists_record_of_unownedImport _ _ _ _ _ hfinding hcode with
      ⟨record, hrecord, below, hseen, hmissing, rfl⟩
    rw [horigins, MergedArchives.getElem?_origins_merge_eq_none_iff] at hmissing
    exact ⟨record, hrecord, below, hseen, rfl, hmissing⟩
  attributed := by
    rintro declared record below hpath hseen ⟨archive, harchive, hmem⟩
    -- Some archive has the path, so it has an origin.
    have hprovided : assembly.origins[below]? ≠ none := by
      intro hnone
      rw [horigins, MergedArchives.getElem?_origins_merge_eq_none_iff] at hnone
      have hheld := Std.ExtTreeMap.isSome_getElem?_iff_mem.2 hmem
      rw [hnone archive harchive] at hheld
      cases hheld
    rcases Option.ne_none_iff_exists'.1 hprovided with ⟨name, hname⟩
    have horigin : Audit.originOf? dependencyRoot assembly.origins record.2 = some name := by
      rw [Audit.originOf?, hseen]
      exact hname
    rcases h.provided record.2 name hpath horigin with ⟨below', data, hseen', hlast, -, hread⟩
    obtain rfl : below = below' := Option.some.inj (hseen.symm.trans hseen')
    exact ⟨name, data, hlast, hread, Audit.judge_of_origin hseen hname⟩

end Layers

/-! ## Requests -/

section Requests

variable {σ : Type u} {disk : FileStore} {caches : BuildCaches σ} {request : TreeRequest}
  {assembly : Assembly}

/-- What was loaded for a request that succeeds are inputs of the request. -/
theorem exists_inputs_of_loaded (hcaches : caches.Reachable) {merged : MergedArchives}
    {collected : SourceFiles}
    (hloaded : (loadDependencies disk caches.archives request.archives).1 = .ok merged)
    (hcollected : collectSources disk request.sources request.sourceRoot request.extensions =
      .ok collected) :
    ∃ inputs : LoadedInputs, inputs.AreOf disk caches.archives.entries request ∧
      merged = MergedArchives.merge (inputs.namedArchives request) := by
  rcases collectSources_eq_ok hcollected with ⟨plain, archived, hplain, harchived, -⟩
  rcases hcaches.exists_shows with ⟨capacity, -, hshows⟩
  rw [hshows.loadDependencies_fst] at hloaded
  rcases map_eq_ok_iff.1 hloaded with ⟨dependencies, hdependencies, rfl⟩
  refine ⟨⟨plain, archived, dependencies⟩, ⟨?_, mapM_eq_ok_iff.1 harchived,
    mapM_eq_ok_iff.1 hdependencies⟩, rfl⟩
  exact (mapM_eq_ok_iff.1 hplain).imp fun path source => readPlain_eq_ok_iff.1

/-- The origins of a request that succeeds name the archives whose files are served below its
dependency root, and audits with them blame those archives. -/
theorem origins_name_served (hcaches : caches.Reachable)
    (h : (prepare disk caches request).result = .ok assembly) :
    ∃ (inputs : LoadedInputs) (sourceLayer dependencyLayer : FileTree),
      inputs.AreOf disk caches.archives.entries request ∧
      assembly.tree = .layered [sourceLayer, dependencyLayer] ∧
      assembly.OriginsAgree request.dependencyRoot (inputs.namedArchives request) dependencyLayer ∧
      assembly.AuditsAgree request.dependencyRoot (inputs.namedArchives request) := by
  rcases exists_assemble_of_prepare h with ⟨merged, collected, hloaded, hcollected, hassembled⟩
  rcases assemble_eq_ok hassembled with ⟨hlayered, hsources, horigins⟩
  rcases layered_eq_ok hlayered with ⟨sourceLayer, dependencyLayer, htree, hroot, hserves⟩
  rcases exists_inputs_of_loaded hcaches hloaded hcollected with ⟨inputs, hinputs, rfl⟩
  have hagree : assembly.OriginsAgree request.dependencyRoot (inputs.namedArchives request)
      dependencyLayer := by
    refine originsAgree_of_layers hroot htree horigins (fun path hpath => (hserves path hpath).1)
      ?_ fun path hpath => (hserves path hpath).2
    intro path hnoSource
    rw [hsources] at hnoSource
    exact getElem?_of_notMem_paths hcollected hnoSource
  exact ⟨inputs, sourceLayer, dependencyLayer, hinputs, htree, hagree,
    hagree.auditsAgree horigins⟩

theorem origins_name_served_shared_path :
    ∃ (caches : BuildCaches Unit) (assembly : Assembly) (archives : List (String × FileMap)),
      (prepare (.holding [("a.ts", [3])]) caches
        ⟨[⟨"a.tar", some "k"⟩, ⟨"b.tar", some "l"⟩], ["a.ts"], "src", "/deps", [".ts"]⟩).result =
          .ok assembly ∧
      assembly.AuditsAgree "/deps" archives ∧
      MergedArchives.LastProvider archives "/c.ts" "b.tar" [2] ∧
      Audit.originOf? "/deps" assembly.origins "/deps/c.ts" = some "b.tar" ∧
      assembly.tree.read "/deps/c.ts" = .ok (some [2]) := by
  -- Both archives are held by the session and have the path.
  obtain ⟨caches, hcaches, hview⟩ : ∃ caches : BuildCaches Unit, caches.Reachable ∧
      (prepare (.holding [("a.ts", [3])]) caches
        ⟨[⟨"a.tar", some "k"⟩, ⟨"b.tar", some "l"⟩], ["a.ts"], "src", "/deps", [".ts"]⟩).result.map
        (fun assembly => (Audit.originOf? "/deps" assembly.origins "/deps/c.ts",
          assembly.tree.read "/deps/c.ts", assembly.sources.map (·.text))) =
        .ok (some "b.tar", .ok (some [2]), ["/a.ts"]) :=
    ⟨_, ((BuildCaches.Reachable.created ⟨2, 1⟩ rfl).answered
      (.set "k" (FileMap.ofPairs [("/c.ts", [1])]))).answered
        (.set "l" (FileMap.ofPairs [("/c.ts", [2])])), rfl⟩
  cases hresult : (prepare (.holding [("a.ts", [3])]) caches
      ⟨[⟨"a.tar", some "k"⟩, ⟨"b.tar", some "l"⟩], ["a.ts"], "src", "/deps", [".ts"]⟩).result with
  | error err =>
    rw [hresult] at hview
    cases hview
  | ok assembly =>
    rw [hresult] at hview
    simp only [Except.map, Except.ok.injEq, Prod.mk.injEq] at hview
    rcases hview with ⟨horigin, hserved, hsources⟩
    rcases origins_name_served hcaches hresult with ⟨inputs, _, layer, -, -, hagree, haudits⟩
    rcases hagree.provided "/deps/c.ts" "b.tar" (by decide) horigin with
      ⟨below, data, hseen, hlast, -, hread⟩
    obtain rfl : below = "/c.ts" := Option.some.inj (hseen.symm.trans (by decide))
    have hdata := (hread (by rw [hsources]; decide)).symm.trans hserved
    obtain rfl : data = [2] := Option.some.inj (Except.ok.inj hdata)
    exact ⟨caches, assembly, _, hresult, haudits, hlast, horigin, hserved⟩

end Requests

end Assembly
end BuildTree
