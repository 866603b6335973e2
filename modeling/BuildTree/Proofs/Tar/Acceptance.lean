import BuildTree.Proofs.Tar.Extraction

/-!
# Accepted fragments — which packed files a reader refuses

Packing takes any text for a path.  What it stores is a spelling that keeps the slash at the end of
the path, or the path itself with whatever its pieces are; and what a reader accepts is the path of a
tree.  So a fragment is read as the one file that was packed, or refused for the name under which
the file is stored, and which of both is settled by the path alone.
-/

namespace BuildTree
namespace Tar

/-! ## Places -/

theorem placeOf_of_wellFormed {name : String} (h : Path.error? (treePathOf name) = none) :
    placeOf name = .ok (treePathOf name) := by
  unfold treePathOf at h
  unfold placeOf TreePath.ofRelative
  rw [TreePath.parse_of_wellFormed h]
  rfl

theorem placeOf_of_malformed {name : String} {cause : PathError}
    (h : Path.error? (treePathOf name) = some cause) :
    placeOf name = .error (.invalidEntry name cause) := by
  have hparse : TreePath.parse (treePathOf name) = .error cause := TreePath.parse_eq_error_iff.2 h
  unfold treePathOf at hparse
  unfold placeOf TreePath.ofRelative
  rw [hparse]

/-! ## Reading a fragment -/

section Reading

variable {stream : ByteStream} {fuel size : Nat} {name : String} {front data rest : Bytes}

/-- A file whose name has no place ends reading. -/
theorem filesFrom_unplaced {err : TarError} (hfront : Front (Bytes.ofString name) size front)
    (hplace : placeOf name = .error err)
    (hend : stream.data.length - (front ++ rest).length + front.length + paddedLength size ≤
      maxOffset) : filesFrom stream (fuel + 1) (front ++ rest) = .error err := by
  obtain ⟨steps, hsteps⟩ := hfront.exists_steps rest
  obtain ⟨member, hmember, hfile⟩ := hfront.exists_member stream steps hend
  have hnone : fileOf stream member = .error err := by
    unfold fileOf
    simp only [hfile.name, Utf8.decodeLossy_ofString, hplace]
  rw [filesFrom, hsteps, hmember]
  simp only [isRegular_isFile hfile, if_true, hnone, Except.map]

/-- A fragment is read as its file. -/
theorem unpack_front_placed {place : String} (hfront : Front (Bytes.ofString name) data.length front)
    (hplace : placeOf name = .ok place)
    (hoffsets : (front ++ (data ++ padding data.length)).length ≤ maxOffset) :
    unpack (front ++ (data ++ padding data.length)) = .ok (FileMap.ofPairs [(place, data)]) := by
  have hfragments := List.Forall₂.cons (IsFragment.intro hfront hplace) List.Forall₂.nil
  have hflat : [front ++ (data ++ padding data.length)].flatten =
      front ++ (data ++ padding data.length) := by
    rw [List.flatten_cons, List.flatten_nil, List.append_nil]
  have hunpack := unpack_whole hfragments (by rwa [hflat])
  rwa [hflat] at hunpack

/-- A fragment whose name has no place is not read. -/
theorem unpack_front_unplaced {err : TarError}
    (hfront : Front (Bytes.ofString name) data.length front) (hplace : placeOf name = .error err)
    (hoffsets : (front ++ (data ++ padding data.length)).length ≤ maxOffset) :
    unpack (front ++ (data ++ padding data.length)) = .error err := by
  rw [unpack_of_not_gzip (isGzip_front hfront), filesFrom_unplaced hfront hplace]
  · rfl
  · rw [Nat.sub_self, Nat.zero_add, ← length_append_padding, ← List.length_append]
    exact hoffsets

end Reading

/-! ## Readable paths -/

/-- A reader accepts what packing stores for a path.  A path that a header spells must not end with
a slash, unless its pieces are all empty or `.`; any other is stored as it is, so but for its start
it has to be the path of a tree. -/
structure IsReadable (path : String) : Prop where
  spelled : FitsHeader (Text.dropSlashes path) →
    (Text.dropSlashes path).toList.getLast? = some '/' → loudPieces (Text.dropSlashes path) = []
  asItIs : ¬FitsHeader (Text.dropSlashes path) →
    Path.error? (treePathOf (Text.dropSlashes path)) = none

section Readable

variable {name path : String} {data fragment : Bytes}

/-- A spelling in which something is said is read behind a slash. -/
theorem toList_treePathOf_headerName (h : FitsHeader name) (hloud : loudPieces name ≠ []) :
    (treePathOf (headerName name)).toList = Path.spelled (headerNames name) ++ lastSlash name := by
  have hnames : headerNames name = loudPieces name := if_neg hloud
  rcases List.exists_cons_of_ne_nil hloud with ⟨first, others, hfirst⟩
  have hmem : first ∈ loudPieces name := hfirst ▸ List.mem_cons_self
  have hname : Path.IsName first := isName_of_mem_headerNames h first (hnames ▸ hmem)
  have htext : (headerName name).toList =
      first.toList ++ (Path.spelled others ++ lastSlash name) := by
    rw [headerName, String.toList_ofList, hnames, hfirst, Path.spelled_cons, List.drop_one,
      List.tail_cons, List.append_assoc]
  have hrest : Path.spelled others ++ lastSlash name = [] ∨
      (Path.spelled others ++ lastSlash name).head? = some '/' := by
    unfold lastSlash
    cases others <;> split <;> simp
  -- The first name is no `.`, and neither does it start with a slash.
  have hhere := dropHere_of_name hname.no_slash (mem_loudPieces_iff.1 hmem).2.2 hrest
  have hslash := hname.head?_append_ne (Path.spelled others ++ lastSlash name)
  rw [← htext] at hhere hslash
  simp only [treePathOf, Text.dropSlashes, String.toList_append, String.toList_ofList, hhere,
    Path.dropWhile_slash_eq_self hslash]
  rw [htext, hnames, hfirst, Path.spelled_cons]
  simp

/-- A spelling is read unless a slash stands behind a piece that says something. -/
theorem error?_treePathOf_headerName (h : FitsHeader name) :
    Path.error? (treePathOf (headerName name)) = none ↔
      (name.toList.getLast? = some '/' → loudPieces name = []) := by
  by_cases hlast : name.toList.getLast? = some '/'
  · have hslash : lastSlash name = ['/'] := if_pos hlast
    by_cases hsilent : loudPieces name = []
    · -- All that is left is `./`, which is read as the root.
      have hspelling : headerName name = "./" := by
        rw [headerName, hslash, headerNames, if_pos hsilent]
        rfl
      have hroot : Path.error? (treePathOf "./") = none := by decide
      rw [hspelling]
      exact ⟨fun _ _ => hsilent, fun _ => hroot⟩
    · refine ⟨fun hnone => absurd hnone ?_, fun hall => absurd (hall hlast) hsilent⟩
      -- The slash at the end is still there once the name is a path.
      have hplace := toList_treePathOf_headerName h hsilent
      rw [hslash] at hplace
      refine Path.error?_of_last_slash ?_ (by rw [hplace, List.getLast?_concat])
      intro hroot
      rw [hroot] at hplace
      have hlength := congrArg List.length hplace
      rcases List.exists_cons_of_ne_nil (headerNames_ne_nil name) with ⟨first, others, hnames⟩
      rw [hnames] at hlength
      simp [Path.root] at hlength
  · have hslash : lastSlash name = [] := if_neg hlast
    rcases placeOf_eq_ok (placeOf_headerName h hslash) with ⟨hplace, hwell⟩
    rw [← hplace]
    exact ⟨fun _ hslash' => absurd hslash' hlast, fun _ => hwell⟩

/-- The readable paths are those whose stored name has a place. -/
theorem isReadable_iff (path : String) :
    IsReadable path ↔ Path.error? (treePathOf (storedName path)) = none := by
  unfold storedName
  split
  · rename_i hfits
    rw [error?_treePathOf_headerName hfits]
    exact ⟨fun h => h.spelled hfits, fun h => ⟨fun _ => h, fun hnot => absurd hfits hnot⟩⟩
  · rename_i hfits
    exact ⟨fun h => h.asItIs hfits, fun h => ⟨fun hdoes => absurd hdoes hfits, fun _ => h⟩⟩

/-- What packing gives is read as one file with the contents that were packed exactly if the path is
readable; of any other path the stored name is refused. -/
theorem unpack_pack_iff (hpack : pack path data = .ok fragment)
    (hoffsets : fragment.length ≤ maxOffset) :
    ((∃ (files : FileMap) (place : String), unpack fragment = .ok files ∧
        ∀ other held, files[other]? = some held ↔ other = place ∧ held = data) ↔
      IsReadable path) ∧
    (IsReadable path →
      unpack fragment = .ok (FileMap.ofPairs [(treePathOf (storedName path), data)])) ∧
    (¬IsReadable path →
      ∃ cause, unpack fragment = .error (.invalidEntry (storedName path) cause)) := by
  rcases exists_front_of_pack hpack with ⟨front, hfront, rfl⟩
  rw [isReadable_iff]
  cases herror : Path.error? (treePathOf (storedName path)) with
  | none =>
    -- The stored name has a place, under which the file is read.
    have hunpack := unpack_front_placed hfront (placeOf_of_wellFormed herror) hoffsets
    refine ⟨⟨fun _ => rfl, fun _ => ?_⟩, fun _ => hunpack, fun hnot => absurd rfl hnot⟩
    exact ⟨_, _, hunpack, fun _ _ => FileMap.getElem?_ofPairs_singleton_iff⟩
  | some cause =>
    have hunpack := unpack_front_unplaced hfront (placeOf_of_malformed herror) hoffsets
    have hsome : some cause ≠ none := by simp
    refine ⟨⟨?_, fun hnone => absurd hnone hsome⟩, fun hnone => absurd hnone hsome,
      fun _ => ⟨cause, hunpack⟩⟩
    rintro ⟨files, place, hfiles, -⟩
    rw [hunpack] at hfiles
    cases hfiles

theorem unpack_pack_iff_two_slashes :
    ∃ fragment, pack "lib//a" [7] = .ok fragment ∧
      unpack fragment = .ok (FileMap.ofPairs [("/lib/a", [7])]) := by
  have hpack : pack "lib//a" [7] =
      .ok (fileHeader (Bytes.ofString "lib/a") 1 ++ [7] ++ padding 1) := by decide +kernel
  have hread : IsReadable "lib//a" :=
    ⟨fun _ hlast => absurd hlast (by decide), fun hfits => absurd (by decide +kernel) hfits⟩
  have hstored : treePathOf (storedName "lib//a") = "/lib/a" := by decide +kernel
  have hunpack := (unpack_pack_iff hpack (by decide +kernel)).2.1 hread
  rw [hstored] at hunpack
  exact ⟨_, hpack, hunpack⟩

/-- A path that ends with a slash is packed, and no reader accepts what was packed. -/
theorem packed_though_refused :
    ∃ fragment, pack "/a/" [120] = .ok fragment ∧
      unpack fragment = .error (.invalidEntry "a/" (.trailingSlash "/a/")) := by
  have hpack : pack "/a/" [120] =
      .ok (fileHeader (Bytes.ofString "a/") 1 ++ ([120] ++ padding 1)) := by decide +kernel
  have hplace : placeOf "a/" = .error (.invalidEntry "a/" (.trailingSlash "/a/")) := by decide
  have hfront : Front (Bytes.ofString "a/") 1 (fileHeader (Bytes.ofString "a/") 1) :=
    .plain (by decide) (by decide)
  refine ⟨_, hpack, unpack_front_unplaced hfront hplace ?_⟩
  decide +kernel

end Readable

end Tar
end BuildTree
