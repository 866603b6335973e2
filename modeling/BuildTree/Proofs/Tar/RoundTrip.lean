import BuildTree.Proofs.Tar.Fragment
import BuildTree.Proofs.Tree.FileMap

/-!
# Archives — what unpacking gives for packed files

An archive is the run of its fragments.  It never looks like gzip, since its first octets are those
of a text or of a number.  Read to its end it yields every file; cut off, it is read only if the cut
is between two fragments, so that no cut is taken for the end.
-/

namespace BuildTree
namespace Tar

/-! ## Fragments are not gzip -/

section NotGzip

variable {rest : Bytes}

theorem isGzip_of_head?_ne {bytes : Bytes} (h : bytes.head? ≠ some 0x1F) :
    Gzip.isGzip bytes = false := by
  cases bytes with
  | nil => rfl
  | cons b bytes =>
    have hb : b ≠ 0x1F := fun heq => h (by rw [heq]; rfl)
    simp [Gzip.isGzip, Gzip.magic, List.isPrefixOf, hb.symm]

theorem isGzip_of_second {b c : UInt8} {bytes : Bytes} (h : c ≠ 0x8B) :
    Gzip.isGzip (b :: c :: bytes) = false := by
  simp [Gzip.isGzip, Gzip.magic, List.isPrefixOf, h.symm]

theorem isGzip_take {bytes : Bytes} (h : Gzip.isGzip bytes = false) (count : Nat) :
    Gzip.isGzip (bytes.take count) = false := by
  rw [Bool.eq_false_iff, Gzip.isGzip, Ne, List.isPrefixOf_iff_prefix] at h ⊢
  intro hstart
  exact h (hstart.trans (List.take_prefix count bytes))

/-- The octets of a text are not gzip: the second octet of the magic number only stands inside of
a character, and the first one is a character by itself. -/
theorem isGzip_ofString_append (text : String)
    (hrest : ∃ b bytes, rest = b :: bytes ∧ b ≠ 0x1F ∧ b ≠ 0x8B) :
    Gzip.isGzip (Bytes.ofString text ++ rest) = false := by
  obtain ⟨b, bytes, rfl, hfirst, hsecond⟩ := hrest
  have hinside : ∀ {c : Char} {d : UInt8} {ds : Bytes},
      String.utf8EncodeChar c = d :: ds → d ≠ 0x8B := by
    rintro c d ds hd rfl
    rcases Utf8.utf8EncodeChar_head hd with ⟨hlow | hhigh, -⟩
    · exact absurd hlow (by decide)
    · exact absurd hhigh (by decide)
  rw [Bytes.ofString]
  cases text.toList with
  | nil => exact isGzip_of_head?_ne (by simpa using hfirst)
  | cons c cs =>
    rcases List.exists_cons_of_ne_nil (@String.utf8EncodeChar_ne_nil c) with ⟨d, ds, hc⟩
    -- The magic number starts with a character that is one octet long.
    by_cases hd : d = 0x1F
    · -- So the next octet starts a character, or is the one behind the text.
      have hds : ds = [] := (Utf8.utf8EncodeChar_head hc).2 (by rw [hd]; decide)
      rw [List.flatMap_cons, hc, hds]
      cases cs with
      | nil => exact isGzip_of_second hsecond
      | cons c' cs =>
        rcases List.exists_cons_of_ne_nil (@String.utf8EncodeChar_ne_nil c') with ⟨d', ds', hc'⟩
        rw [List.flatMap_cons, hc']
        exact isGzip_of_second (hinside hc')
    · rw [List.flatMap_cons, hc]
      exact isGzip_of_head?_ne (by simpa using hd)

/-- Behind the name in a header stands a zero, or the first digit of the mode. -/
theorem fileHeader_append (name rest : Bytes) (size : Nat) :
    ∃ b bytes, fileHeader name size ++ rest = name ++ b :: bytes ∧ b ≠ 0x1F ∧ b ≠ 0x8B := by
  have hmode : octal 8 0o644 = 0x30 :: [0x30, 0x30, 0x30, 0x36, 0x34, 0x34, 0] := by decide
  simp only [fileHeader, headerParts, HeaderParts.block, field, List.append_assoc, hmode,
    List.cons_append]
  cases nameWidth - name.length with
  | zero => exact ⟨_, _, rfl, by decide, by decide⟩
  | succ room => exact ⟨_, _, rfl, by decide, by decide⟩

theorem isGzip_front {name : String} {size : Nat} {front : Bytes}
    (h : Front (Bytes.ofString name) size front) : Gzip.isGzip (front ++ rest) = false := by
  generalize hoctets : Bytes.ofString name = octets at h
  cases h with
  | plain room noNul =>
    obtain ⟨b, bytes, hbytes, hne⟩ := fileHeader_append octets rest size
    rw [hbytes, ← hoctets]
    exact isGzip_ofString_append name ⟨b, bytes, rfl, hne⟩
  | long room =>
    obtain ⟨marker, hmarker⟩ : ∃ marker, longNameMarker = 0x2E :: marker := ⟨_, rfl⟩
    apply isGzip_of_head?_ne
    simp [longNameEntry, headerParts, HeaderParts.block, field, hmarker]

/-- No archive is taken for gzip, if what is behind its fragments is not. -/
theorem isGzip_fragments {files : List (String × Bytes)} {fragments : List Bytes}
    (h : List.Forall₂ IsFragment files fragments) (hrest : rest.head? ≠ some 0x1F) :
    Gzip.isGzip (fragments.flatten ++ rest) = false := by
  cases h with
  | nil => exact isGzip_of_head?_ne hrest
  | cons hfile hfiles =>
    cases hfile with
    | intro announced placed =>
      simp only [List.flatten_cons, List.append_assoc]
      exact isGzip_front announced

end NotGzip

/-! ## Whole archives -/

theorem unpack_of_not_gzip {bytes : Bytes} (h : Gzip.isGzip bytes = false) :
    unpack bytes =
      (filesFrom ⟨bytes, false⟩ (bytes.length + 1) bytes).map FileMap.ofPairs := by
  simp [unpack, streamOf, h]

section Archives

variable {files : List (String × Bytes)} {fragments : List Bytes} {rest : Bytes}

/-- Every fragment takes at least one octet of its archive. -/
theorem length_le_flatten (h : List.Forall₂ IsFragment files fragments) :
    files.length ≤ fragments.flatten.length := by
  induction h with
  | nil => exact Nat.zero_le _
  | cons hfile hfiles ih =>
    have hpos := hfile.length_pos
    rw [List.flatten_cons, List.length_append, List.length_cons]
    omega

/-- Of an archive and what is behind it the files of the fragments are read first. -/
theorem unpack_fragments (h : List.Forall₂ IsFragment files fragments)
    (hoffsets : fragments.flatten.length ≤ maxOffset)
    (hgzip : Gzip.isGzip (fragments.flatten ++ rest) = false) :
    ∃ fuel, unpack (fragments.flatten ++ rest) =
      ((filesFrom ⟨fragments.flatten ++ rest, false⟩ (fuel + 1) rest).map (files ++ ·)).map
        FileMap.ofPairs := by
  -- Each file takes one step of reading and at least one octet, so fuel is left for the rest.
  have hcount := length_le_flatten h
  obtain ⟨fuel, hfuel⟩ : ∃ fuel, (fragments.flatten ++ rest).length + 1 =
      files.length + (fuel + 1) := by
    refine ⟨(fragments.flatten ++ rest).length - files.length, ?_⟩
    rw [List.length_append]
    omega
  refine ⟨fuel, ?_⟩
  have hend : (fragments.flatten ++ rest).length - (fragments.flatten ++ rest).length +
      fragments.flatten.length ≤ maxOffset := by
    rw [Nat.sub_self, Nat.zero_add]
    exact hoffsets
  rw [unpack_of_not_gzip hgzip, hfuel, filesFrom_append h hend le_rfl]

theorem unpack_whole (h : List.Forall₂ IsFragment files fragments)
    (hoffsets : fragments.flatten.length ≤ maxOffset) :
    unpack fragments.flatten = .ok (FileMap.ofPairs files) := by
  have hgzip : Gzip.isGzip (fragments.flatten ++ []) = false := isGzip_fragments h (by simp)
  rcases unpack_fragments h hoffsets hgzip with ⟨fuel, hunpack⟩
  rw [List.append_nil, filesFrom_nil rfl] at hunpack
  rw [hunpack]
  simp [Except.map]

theorem head?_zeros_append (rest : Bytes) :
    (Bytes.zeros blockSize ++ rest).head? ≠ some 0x1F := by
  have hzeros : Bytes.zeros blockSize = 0 :: Bytes.zeros (blockSize - 1) := rfl
  rw [hzeros]
  simp

theorem unpack_terminated (h : List.Forall₂ IsFragment files fragments)
    (hoffsets : fragments.flatten.length ≤ maxOffset) :
    unpack (fragments.flatten ++ (Bytes.zeros blockSize ++ rest)) =
      .ok (FileMap.ofPairs files) := by
  have hgzip := isGzip_fragments h (head?_zeros_append rest)
  rcases unpack_fragments h hoffsets hgzip with ⟨fuel, hunpack⟩
  rw [hunpack, filesFrom_zeros]
  simp [Except.map]

/-- An archive that was cut off inside of a fragment is not read. -/
theorem unpack_cut {file : String × Bytes} {fragment : Bytes}
    (h : List.Forall₂ IsFragment files fragments) (hfile : IsFragment file fragment)
    (hoffsets : fragments.flatten.length + fragment.length ≤ maxOffset) {count : Nat}
    (hpos : 0 < count) (hlt : count < fragment.length) :
    ∃ err, unpack (fragments.flatten ++ fragment.take count) = .error err := by
  -- The cut archive starts like the whole one, so it is not taken for gzip either.
  have hgzip : Gzip.isGzip (fragments.flatten ++ fragment.take count) = false := by
    have htake : fragments.flatten ++ fragment.take count =
        ((fragments ++ [fragment]).flatten ++ []).take (fragments.flatten.length + count) := by
      simp [List.take_append]
    rw [htake]
    apply isGzip_take
    exact isGzip_fragments (List.rel_append h (List.Forall₂.cons hfile List.Forall₂.nil)) (by simp)
  have hcount : (fragment.take count).length = count := List.length_take_of_le hlt.le
  rcases unpack_fragments h (by omega) hgzip with ⟨fuel, hunpack⟩
  have hend : (fragments.flatten ++ fragment.take count).length - count + fragment.length ≤
      maxOffset := by
    rw [List.length_append, hcount]
    omega
  have hread : ∃ err, filesFrom ⟨fragments.flatten ++ fragment.take count, false⟩ (fuel + 1)
      (fragment.take count) = .error err := filesFrom_cut hfile rfl hpos hlt hend
  rcases hread with ⟨err, herr⟩
  rw [hunpack, herr]
  exact ⟨err, rfl⟩

/-- A cut of an archive is between two of its pieces or inside of one. -/
theorem exists_cut (pieces : List Bytes) {n : Nat} (h : n ≤ pieces.flatten.length) :
    (∃ k ≤ pieces.length, n = (pieces.take k).flatten.length) ∨
      ∃ before piece behind count, pieces = before ++ piece :: behind ∧ 0 < count ∧
        count < piece.length ∧ n = before.flatten.length + count := by
  induction pieces generalizing n with
  | nil => exact Or.inl ⟨0, le_rfl, Nat.le_zero.1 h⟩
  | cons piece pieces ih =>
    rw [List.flatten_cons, List.length_append] at h
    rcases Nat.eq_zero_or_pos n with rfl | hpos
    · exact Or.inl ⟨0, Nat.zero_le _, rfl⟩
    rcases Nat.lt_or_ge n piece.length with hinside | hbehind
    · exact Or.inr ⟨[], piece, pieces, n, rfl, hpos, hinside, by simp⟩
    · -- The cut is behind the first piece, so it is one of the others.
      rcases ih (n := n - piece.length) (by omega) with
        ⟨k, hk, heq⟩ | ⟨before, inner, behind, count, rfl, hcount, hlt, heq⟩
      · refine Or.inl ⟨k + 1, Nat.succ_le_succ hk, ?_⟩
        rw [List.take_succ_cons, List.flatten_cons, List.length_append]
        omega
      · refine Or.inr ⟨piece :: before, inner, behind, count, rfl, hcount, hlt, ?_⟩
        rw [List.flatten_cons, List.length_append]
        omega

/-- Packed files as fragments. -/
theorem isFragment_of_packed (hplain : ∀ file ∈ files, IsPlain file.1)
    (hpacked : List.Forall₂ (fun file fragment => pack file.1 file.2 = .ok fragment)
      files fragments) : List.Forall₂ IsFragment files fragments := by
  refine ((List.forall₂_and_left _ _).2 ⟨hplain, hpacked⟩).imp ?_
  rintro ⟨path, data⟩ fragment ⟨hpath, hpack⟩
  exact isFragment_of_pack hpath hpack

/-- Unpacking an archive gives back the files that were packed into it, the last of those with one
path, whether the archive just ends or a block of zeros ends it.  The archive has to be one whose
octets can be told apart by offsets, as those of any byte string in memory can. -/
theorem unpack_packed (hplain : ∀ file ∈ files, IsPlain file.1)
    (hpacked : List.Forall₂ (fun file fragment => pack file.1 file.2 = .ok fragment)
      files fragments) (hoffsets : fragments.flatten.length ≤ maxOffset) :
    ∃ map : FileMap, (∀ path, map[path]? = files.reverse.lookup path) ∧
      unpack fragments.flatten = .ok map ∧ Gzip.isGzip fragments.flatten = false ∧
      ∀ behind, unpack (fragments.flatten ++ Bytes.zeros blockSize ++ behind) = .ok map ∧
        Gzip.isGzip (fragments.flatten ++ Bytes.zeros blockSize ++ behind) = false := by
  have hfragments := isFragment_of_packed hplain hpacked
  have hgzip : Gzip.isGzip (fragments.flatten ++ []) = false :=
    isGzip_fragments hfragments (by simp)
  refine ⟨FileMap.ofPairs files, FileMap.getElem?_ofPairs files,
    unpack_whole hfragments hoffsets, ?_, ?_⟩
  · rwa [List.append_nil] at hgzip
  · intro behind
    rw [List.append_assoc]
    exact ⟨unpack_terminated hfragments hoffsets,
      isGzip_fragments hfragments (head?_zeros_append behind)⟩

theorem unpack_packed_long_name :
    ∃ fragments : List Bytes, ∃ map : FileMap,
      List.Forall₂ (fun file fragment => pack file.1 file.2 = .ok fragment)
        [("/lib/a", [7]), ("/😀😀😀😀😀😀😀😀😀😀😀😀😀😀😀😀😀😀😀😀😀😀😀😀😀😀", [8]),
          ("/lib/a", [9, 10])] fragments ∧
      unpack fragments.flatten = .ok map ∧ map["/lib/a"]? = some [9, 10] ∧
      map["/😀😀😀😀😀😀😀😀😀😀😀😀😀😀😀😀😀😀😀😀😀😀😀😀😀😀"]? = some [8] := by
  have hplain : ∀ file ∈ [("/lib/a", ([7] : Bytes)),
      ("/😀😀😀😀😀😀😀😀😀😀😀😀😀😀😀😀😀😀😀😀😀😀😀😀😀😀", [8]), ("/lib/a", [9, 10])],
      IsPlain file.1 := by
    intro file hfile
    simp only [List.mem_cons, List.not_mem_nil, or_false] at hfile
    rcases hfile with rfl | rfl | rfl
    · exact ⟨by decide, by decide, by decide⟩
    · exact ⟨by decide +kernel, by decide +kernel, by decide +kernel⟩
    · exact ⟨by decide, by decide, by decide⟩
  have hfirst : pack "/lib/a" [7] =
      .ok (fileHeader (Bytes.ofString "lib/a") 1 ++ [7] ++ padding 1) := by decide +kernel
  -- The name takes 104 octets, of which the header has the first 100.
  have hlong : pack "/😀😀😀😀😀😀😀😀😀😀😀😀😀😀😀😀😀😀😀😀😀😀😀😀😀😀" [8] =
      .ok (longNameEntry
          (Bytes.ofString "😀😀😀😀😀😀😀😀😀😀😀😀😀😀😀😀😀😀😀😀😀😀😀😀😀😀") ++
        fileHeader (Bytes.ofString "😀😀😀😀😀😀😀😀😀😀😀😀😀😀😀😀😀😀😀😀😀😀😀😀😀") 1 ++ [8] ++
        padding 1) := by decide +kernel
  have hlast : pack "/lib/a" [9, 10] =
      .ok (fileHeader (Bytes.ofString "lib/a") 2 ++ [9, 10] ++ padding 2) := by decide +kernel
  have hpacked : List.Forall₂ (fun file fragment => pack file.1 file.2 = .ok fragment)
      [("/lib/a", [7]), ("/😀😀😀😀😀😀😀😀😀😀😀😀😀😀😀😀😀😀😀😀😀😀😀😀😀😀", [8]),
        ("/lib/a", [9, 10])] _ :=
    List.Forall₂.cons hfirst (List.Forall₂.cons hlong (List.Forall₂.cons hlast List.Forall₂.nil))
  rcases unpack_packed hplain hpacked (by decide +kernel) with ⟨map, hmap, hunpack, -⟩
  exact ⟨_, map, hpacked, hunpack, by rw [hmap]; rfl, by rw [hmap]; decide +kernel⟩

/-- A leading part of an archive is read just if the cut is between two fragments, and then the
files in front of the cut are all there. -/
theorem unpack_take_packed (hplain : ∀ file ∈ files, IsPlain file.1)
    (hpacked : List.Forall₂ (fun file fragment => pack file.1 file.2 = .ok fragment)
      files fragments) (hoffsets : fragments.flatten.length ≤ maxOffset) {n : Nat}
    (hn : n ≤ fragments.flatten.length) :
    ((∃ map, unpack (fragments.flatten.take n) = .ok map) ↔
      ∃ k ≤ fragments.length, n = (fragments.take k).flatten.length) ∧
    ∀ k ≤ fragments.length, n = (fragments.take k).flatten.length →
      ∃ map : FileMap, unpack (fragments.flatten.take n) = .ok map ∧
        ∀ path, map[path]? = (files.take k).reverse.lookup path := by
  have hfragments := isFragment_of_packed hplain hpacked
  have hboundary : ∀ k ≤ fragments.length, n = (fragments.take k).flatten.length →
      unpack (fragments.flatten.take n) = .ok (FileMap.ofPairs (files.take k)) := by
    intro k hk hcut
    -- What is in front of such a cut is itself an archive.
    have hsplit : fragments.flatten = (fragments.take k).flatten ++ (fragments.drop k).flatten := by
      rw [← List.flatten_append, List.take_append_drop]
    rw [hsplit, List.take_left' hcut.symm]
    exact unpack_whole (List.forall₂_take k hfragments) (by omega)
  refine ⟨⟨?_, ?_⟩, ?_⟩
  · -- Whatever is read was cut between two fragments.
    rintro ⟨map, hmap⟩
    rcases exists_cut fragments hn with hbetween | ⟨before, fragment, behind, count, rfl, hcut⟩
    · exact hbetween
    · rcases hcut with ⟨hpos, hlt, rfl⟩
      -- The cut is inside of `fragment`, so nothing would have been read.
      have hbefore := List.forall₂_take_append files before (fragment :: behind) hfragments
      have hbehind := List.forall₂_drop_append files before (fragment :: behind) hfragments
      rcases List.forall₂_cons_right_iff.1 hbehind with ⟨file, -, hfile, -, -⟩
      rw [List.flatten_append, List.flatten_cons, List.length_append, List.length_append] at hoffsets
      rcases unpack_cut hbefore hfile (by omega) hpos hlt with ⟨err, herr⟩
      have htake : (before ++ fragment :: behind).flatten.take (before.flatten.length + count) =
          before.flatten ++ fragment.take count := by
        rw [List.flatten_append, List.flatten_cons, List.take_length_add_append,
          List.take_append_of_le_length hlt.le]
      rw [htake, herr] at hmap
      exact absurd hmap (by simp)
  · rintro ⟨k, hk, hcut⟩
    exact ⟨_, hboundary k hk hcut⟩
  · intro k hk hcut
    exact ⟨_, hboundary k hk hcut, FileMap.getElem?_ofPairs (files.take k)⟩

theorem unpack_take_packed_without_padding :
    ∃ fragment, pack "/lib/a" [7] = .ok fragment ∧ fragment.length = 1024 ∧
      ¬∃ map, unpack (fragment.take 513) = .ok map := by
  have hplain : ∀ file ∈ [("/lib/a", ([7] : Bytes))], IsPlain file.1 := by
    intro file hfile
    rw [List.mem_singleton.1 hfile]
    exact ⟨by decide, by decide, by decide⟩
  have hpack : pack "/lib/a" [7] =
      .ok (fileHeader (Bytes.ofString "lib/a") 1 ++ [7] ++ padding 1) := by decide +kernel
  have hlength : (fileHeader (Bytes.ofString "lib/a") 1 ++ [7] ++ padding 1).length = 1024 := by
    decide +kernel
  generalize fileHeader (Bytes.ofString "lib/a") 1 ++ [7] ++ padding 1 = fragment at hpack hlength
  have hflat : [fragment].flatten = fragment := by simp
  have hcut := unpack_take_packed hplain (List.Forall₂.cons hpack List.Forall₂.nil)
    (by rw [hflat, hlength]; decide) (n := 513) (by rw [hflat, hlength]; decide)
  refine ⟨fragment, hpack, hlength, ?_⟩
  intro hread
  rw [hflat] at hcut
  rcases hcut.1.1 hread with ⟨k, hk, hboundary⟩
  rcases Nat.le_one_iff_eq_zero_or_eq_one.1 hk with rfl | rfl
  · simp at hboundary
  · simp [hlength] at hboundary

end Archives

end Tar
end BuildTree
