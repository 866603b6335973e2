import BuildTree.Proofs.Path.Names
import BuildTree.Tree.FileTree

/-!
# File maps — what a map of files holds

A map that is built from pairs keeps the last pair of each path.  A map that is moved to a mount
point holds what was there under the mounted paths, and nothing else.
-/

namespace BuildTree

section Maps

variable {β : Type}

/-- Of several pairs with one key the last counts, and what was there before only if there is
none. -/
theorem getElem?_foldl_insert (pairs : List (String × β)) (map : Std.ExtTreeMap String β)
    (key : String) :
    (pairs.foldl (fun map entry => map.insert entry.1 entry.2) map)[key]? =
      (pairs.reverse.lookup key).or map[key]? := by
  induction pairs generalizing map with
  | nil => rfl
  | cons pair pairs ih =>
    have hlast : (map.insert pair.1 pair.2)[key]? = ([pair].lookup key).or map[key]? := by
      rw [Std.ExtTreeMap.getElem?_insert]
      by_cases h : pair.1 = key
      · subst h
        simp [List.lookup]
      · have hne : (key == pair.1) = false := beq_false_of_ne (Ne.symm h)
        simp [h, List.lookup, hne]
    calc
      (pairs.foldl (fun map entry => map.insert entry.1 entry.2) (map.insert pair.1 pair.2))[key]? =
          (pairs.reverse.lookup key).or (([pair].lookup key).or map[key]?) := by
        rw [ih, hlast]
      _ = (((pair :: pairs).reverse).lookup key).or map[key]? := by
        rw [List.reverse_cons, List.lookup_append, Option.or_assoc]

theorem mem_of_lookup_reverse {pairs : List (String × β)} {key : String} {value : β}
    (h : pairs.reverse.lookup key = some value) : (key, value) ∈ pairs := by
  rcases List.lookup_eq_some_iff.1 h with ⟨before, behind, hsplit, -⟩
  apply List.mem_reverse.1
  rw [hsplit]
  exact List.mem_append_right before List.mem_cons_self

/-- The pairs of a map are a map again. -/
theorem lookup_reverse_toList (map : Std.ExtTreeMap String β) (key : String) :
    map.toList.reverse.lookup key = map[key]? := by
  cases hlookup : map.toList.reverse.lookup key with
  | some value =>
    exact (Std.ExtTreeMap.mem_toList_iff_getElem?_eq_some.1 (mem_of_lookup_reverse hlookup)).symm
  | none =>
    cases hheld : map[key]? with
    | none => rfl
    | some value =>
      -- A pair that is held is one of the pairs, so its key is found.
      have hmem := Std.ExtTreeMap.mem_toList_iff_getElem?_eq_some.2 hheld
      have hother := List.lookup_eq_none_iff.1 hlookup _ (List.mem_reverse.2 hmem)
      simp at hother

theorem foldl_insert_toList (map : Std.ExtTreeMap String β) :
    map.toList.foldl (fun map entry => map.insert entry.1 entry.2) ∅ = map := by
  refine Std.ExtTreeMap.ext_getElem? fun key => ?_
  rw [getElem?_foldl_insert, lookup_reverse_toList, Std.ExtTreeMap.getElem?_empty, Option.or_none]

end Maps

namespace FileMap

theorem mem_iff_exists_mem_toList {files : FileMap} {path : String} :
    path ∈ files ↔ ∃ data, (path, data) ∈ files.toList := by
  rw [Std.ExtTreeMap.mem_iff_isSome_getElem?, Option.isSome_iff_exists]
  exact exists_congr fun data => Std.ExtTreeMap.mem_toList_iff_getElem?_eq_some.symm

/-- The keys of a map of files are ascending. -/
theorem keys_ascending (files : FileMap) : files.keys.Pairwise (· < ·) := by
  refine Std.ExtTreeMap.ordered_keys.imp ?_
  intro a b h
  exact compare_lt_iff_lt.1 h

theorem keys_nodup (files : FileMap) : files.keys.Nodup :=
  files.keys_ascending.imp ne_of_lt

theorem getElem?_ofPairs (pairs : List (String × Bytes)) (path : String) :
    (ofPairs pairs)[path]? = pairs.reverse.lookup path := by
  rw [ofPairs, getElem?_foldl_insert, Std.ExtTreeMap.getElem?_empty, Option.or_none]

theorem mem_of_getElem?_ofPairs {pairs : List (String × Bytes)} {path : String} {data : Bytes}
    (h : (ofPairs pairs)[path]? = some data) : (path, data) ∈ pairs := by
  rw [getElem?_ofPairs] at h
  exact mem_of_lookup_reverse h

/-- A map of one pair holds just that pair. -/
theorem getElem?_ofPairs_singleton_iff {place path : String} {data held : Bytes} :
    (ofPairs [(place, data)])[path]? = some held ↔ path = place ∧ held = data := by
  rw [getElem?_ofPairs, List.reverse_singleton, List.lookup_cons]
  by_cases hplace : path = place
  · simp [hplace, eq_comm]
  · have hother : (path == place) = false := beq_false_of_ne hplace
    simp [hplace, hother]

theorem toList_ofPairs_singleton (path : String) (data : Bytes) :
    (ofPairs [(path, data)]).toList = [(path, data)] := by
  have hlength : (ofPairs [(path, data)]).toList.length = 1 := by
    simp [ofPairs, Std.ExtTreeMap.length_toList, Std.ExtTreeMap.size_insert]
  rcases List.length_eq_one_iff.1 hlength with ⟨⟨place, held⟩, hpair⟩
  have hmem : (place, held) ∈ (ofPairs [(path, data)]).toList := by
    rw [hpair]
    exact List.mem_singleton_self _
  rw [Std.ExtTreeMap.mem_toList_iff_getElem?_eq_some, getElem?_ofPairs_singleton_iff] at hmem
  rw [hpair, hmem.1, hmem.2]

/-- A pair that no other pair contradicts is in the map. -/
theorem getElem?_ofPairs_of_mem {pairs : List (String × Bytes)} {path : String} {data : Bytes}
    (hmem : (path, data) ∈ pairs) (hsame : ∀ other, (path, other) ∈ pairs → other = data) :
    (ofPairs pairs)[path]? = some data := by
  have hsome : ((ofPairs pairs)[path]?).isSome := by
    rw [getElem?_ofPairs]
    exact List.lookup_isSome_iff.2 ⟨(path, data), List.mem_reverse.2 hmem, by simp⟩
  rcases Option.isSome_iff_exists.1 hsome with ⟨other, hother⟩
  rw [hother, hsame other (mem_of_getElem?_ofPairs hother)]

/-- A map that is put over another one hides what it holds itself. -/
theorem getElem?_foldl_toList (upper lower : FileMap) (path : String) :
    (upper.toList.foldl (fun files entry => files.insert entry.1 entry.2) lower)[path]? =
      upper[path]?.or lower[path]? := by
  rw [getElem?_foldl_insert, lookup_reverse_toList]

/-- The files of a map, moved to a mount point. -/
def moved (mountPoint : String) (files : FileMap) : FileMap :=
  ofPairs (files.toList.map fun entry => (Path.mount mountPoint entry.1, entry.2))

/-- A moved map holds what the map holds under the path seen from the mount point. -/
theorem getElem?_moved {mountPoint path : String} {files : FileMap}
    (hmount : Path.error? mountPoint = none)
    (hfiles : ∀ inner data, files[inner]? = some data → Path.error? inner = none)
    (hpath : Path.error? path = none) :
    (moved mountPoint files)[path]? = (Path.seenFrom? path mountPoint).bind (files[·]?) := by
  have hmem : ∀ data, (path, data) ∈ files.toList.map (fun entry =>
      (Path.mount mountPoint entry.1, entry.2)) ↔
      ∃ inner, Path.seenFrom? path mountPoint = some inner ∧ files[inner]? = some data := by
    intro data
    constructor
    · -- A moved pair comes from one whose path is seen from the mount point.
      intro h
      rcases List.mem_map.1 h with ⟨⟨inner, held⟩, hinner, heq⟩
      rcases Prod.mk.inj heq with ⟨hplace, rfl⟩
      have hheld := Std.ExtTreeMap.mem_toList_iff_getElem?_eq_some.1 hinner
      refine ⟨inner, ?_, hheld⟩
      exact (Path.seenFrom?_eq_some_iff_mount hpath hmount).2 ⟨hfiles inner held hheld, hplace⟩
    · rintro ⟨inner, hseen, hheld⟩
      have hplace := ((Path.seenFrom?_eq_some_iff_mount hpath hmount).1 hseen).2
      refine List.mem_map.2 ⟨(inner, data), ?_, by rw [hplace]⟩
      exact Std.ExtTreeMap.mem_toList_iff_getElem?_eq_some.2 hheld
  apply Option.ext
  intro data
  rw [Option.bind_eq_some_iff]
  constructor
  · intro h
    exact (hmem data).1 (mem_of_getElem?_ofPairs h)
  · intro h
    refine getElem?_ofPairs_of_mem ((hmem data).2 h) ?_
    intro other hother
    rcases (hmem other).1 hother with ⟨inner, hseen, hinner⟩
    rcases h with ⟨same, hsame, hdata⟩
    -- Only one inner path is seen, so it has one content.
    have hinner' : same = inner := Option.some.inj (hsame.symm.trans hseen)
    rw [hinner'] at hdata
    exact Option.some.inj (hinner.symm.trans hdata)

/-- The paths of a moved map are mounted paths. -/
theorem exists_of_getElem?_moved {mountPoint path : String} {files : FileMap} {data : Bytes}
    (h : (moved mountPoint files)[path]? = some data) :
    ∃ inner, files[inner]? = some data ∧ Path.mount mountPoint inner = path := by
  rcases List.mem_map.1 (mem_of_getElem?_ofPairs h) with ⟨⟨inner, held⟩, hinner, heq⟩
  rcases Prod.mk.inj heq with ⟨hplace, rfl⟩
  exact ⟨inner, Std.ExtTreeMap.mem_toList_iff_getElem?_eq_some.1 hinner, hplace⟩

end FileMap
end BuildTree
