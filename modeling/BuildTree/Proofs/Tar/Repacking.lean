import BuildTree.Proofs.Tar.Acceptance

/-!
# Repacked archives — packing again what was unpacked

The paths that unpacking yields are well formed, but not all of them come from packing.  The root has
no name to pack; a name may hold a NUL, which a header cannot; and a `.` among the names is left out
of a header, or dropped by a reader.  Any other archive can be packed again and is the same then, and
so is every archive that was packed again once.
-/

namespace BuildTree
namespace Tar

/-! ## Cutting names -/

/-- The pieces in front of a cut are pieces of the whole text. -/
theorem isPrefix_dropLast_splitOn {part whole : List Char} (h : part <+: whole) :
    (part.splitOn '/').dropLast <+: whole.splitOn '/' := by
  rcases h with ⟨rest, rfl⟩
  induction part with
  | nil => exact List.nil_prefix
  | cons c cs ih =>
    rw [List.cons_append, List.splitOn_cons_eq_if_modifyHead, List.splitOn_cons_eq_if_modifyHead]
    rcases List.exists_cons_of_ne_nil (List.splitOn_ne_nil '/' cs) with ⟨first, others, hsplit⟩
    rw [hsplit] at ih ⊢
    split
    · -- A slash puts an empty piece in front.
      rw [List.dropLast_cons_of_ne_nil (List.cons_ne_nil _ _)]
      exact (List.prefix_cons_inj []).2 ih
    · -- Any other character joins the first piece, unless that is cut.
      cases others with
      | nil => exact List.nil_prefix
      | cons next others =>
        rw [List.dropLast_cons_of_ne_nil (List.cons_ne_nil _ _)] at ih
        rw [List.modifyHead_cons, List.dropLast_cons_of_ne_nil (List.cons_ne_nil _ _)]
        rcases List.exists_cons_of_ne_nil (List.splitOn_ne_nil '/' (cs ++ rest)) with
          ⟨first', others', hsplit'⟩
        rw [hsplit'] at ih ⊢
        rcases List.cons_prefix_cons.1 ih with ⟨rfl, hprefix⟩
        exact List.cons_prefix_cons.2 ⟨rfl, hprefix⟩

theorem mem_dropLast_of_mem_dropLast_filter {α : Type} {p : α → Bool} {xs : List α} {x : α}
    (h : x ∈ (xs.filter p).dropLast) : x ∈ xs.dropLast := by
  rcases List.eq_nil_or_concat' xs with rfl | ⟨front, last, rfl⟩
  · exact h
  · rw [List.dropLast_concat]
    refine List.mem_of_mem_filter (p := p) ?_
    rw [List.filter_append] at h
    cases hlast : p last with
    | true => rwa [List.filter_cons_of_pos hlast, List.filter_nil, List.dropLast_concat] at h
    | false =>
      rw [List.filter_cons_of_neg (by simp [hlast]), List.filter_nil, List.append_nil] at h
      exact List.dropLast_subset _ h

/-- The components in front of the last one of a cut name are pieces of the whole name. -/
theorem mem_splitOn_of_mem_dropLast_headerNames {part whole n : String}
    (hpart : part.toList <+: whole.toList) (h : n ∈ (headerNames part).dropLast) :
    n.toList ∈ whole.toList.splitOn '/' := by
  unfold headerNames at h
  split at h
  · cases h
  · rw [loudPieces, ← List.map_dropLast] at h
    rcases List.mem_map.1 h with ⟨piece, hpiece, rfl⟩
    rw [String.toList_ofList]
    exact (isPrefix_dropLast_splitOn hpart).subset (mem_dropLast_of_mem_dropLast_filter hpiece)

/-! ## Packing well-formed paths -/

/-- A file at a path can be packed: the path is not the root, and the part of it that a header has
room for holds no NUL. -/
def IsPackable (path : String) : Prop :=
  path ≠ Path.root ∧ '\x00' ∉ fitting nameWidth (Text.dropSlashes path).toList

section Packing

variable {names : List String} {text path : String} {data : Bytes}

theorem Spells.noUp_headerNames (h : Spells text names) : ".." ∉ headerNames text := by
  intro hup
  rw [headerNames, h.loudPieces_eq] at hup
  split at hup
  · simp at hup
  · exact (h.isName _ (List.mem_of_mem_filter hup)).ne_up rfl

/-- Spelled names fit a header if there is room for them and no NUL among them. -/
theorem Spells.fitsHeader (h : Spells text names) (hne : names ≠ []) (hnul : '\x00' ∉ text.toList)
    (hroom : (Bytes.ofString text).length ≤ nameWidth) : FitsHeader text := by
  have htext := h.ne_empty hne
  exact ⟨h.noUp_headerNames,
    fun hmem => hnul ((mem_headerName_iff htext h.head?_ne (by decide) (by decide)).1 hmem),
    (length_ofString_le (headerName_sublist htext h.head?_ne)).trans hroom⟩

/-- A `..` in a cut name can only be what was left of its last name. -/
theorem Spells.noUp_dropLast_cutName (h : Spells text names) (hne : names ≠ []) :
    ".." ∉ (headerNames (cutName text)).dropLast := by
  intro hup
  have hcut : (cutName text).toList <+: text.toList := by
    rw [toList_cutName]
    exact isPrefix_fitting nameWidth text.toList
  have hpiece := mem_splitOn_of_mem_dropLast_headerNames hcut hup
  rcases List.exists_cons_of_ne_nil hne with ⟨name, others, rfl⟩
  rw [h.splitOn_eq] at hpiece
  rcases List.mem_map.1 hpiece with ⟨n, hn, heq⟩
  exact (h.isName n hn).ne_up (String.toList_inj.1 heq)

/-- Of the files at well-formed paths exactly those can be packed that are packable. -/
theorem exists_pack_iff_isPackable (h : Path.error? path = none) :
    (∃ fragment, pack path data = .ok fragment) ↔ IsPackable path := by
  rcases Path.exists_names h with ⟨names, hnames, rfl⟩
  have hspells := spells_dropSlashes hnames
  have hroot : Path.ofNames names ≠ Path.root ↔ names ≠ [] :=
    not_congr (Path.ofNames_eq_root_iff hnames)
  rw [exists_pack_iff, IsPackable, hroot]
  generalize Text.dropSlashes (Path.ofNames names) = text at hspells ⊢
  by_cases hnil : names = []
  · -- Nothing is left of the root.
    have hempty : text = "" := by
      have htext := hspells.toList_eq
      rw [hnil] at htext
      exact String.toList_eq_nil_iff.1 htext
    exact ⟨fun hpack => absurd hempty hpack.1, fun hpack => absurd hnil hpack.1⟩
  · have hne := hspells.ne_empty hnil
    rw [and_iff_right hne, and_iff_right hnil, fits_cutName_iff hne hspells.head?_ne,
      and_iff_right (hspells.noUp_dropLast_cutName hnil)]
    constructor
    · rintro (hfits | ⟨-, hclean⟩)
      · intro hmem
        have hname := (isPrefix_fitting nameWidth text.toList).subset hmem
        exact hfits.noNul ((mem_headerName_iff hne hspells.head?_ne (by decide) (by decide)).2 hname)
      · exact hclean
    · intro hclean
      rcases Nat.le_total (Bytes.ofString text).length nameWidth with hshort | hlong
      · -- Nothing is cut off a short name.
        rw [fitting_eq_self hshort] at hclean
        exact Or.inl (hspells.fitsHeader hnil hclean hshort)
      · exact Or.inr ⟨hlong, hclean⟩

end Packing

/-! ## Packing twice -/

section Twice

variable {names : List String} {text again : String}

theorem filter_withoutHere (names : List String) :
    (withoutHere names).filter (· != ".") = names.filter (· != ".") := by
  induction names with
  | nil => rfl
  | cons name names ih =>
    rw [withoutHere]
    split
    · rename_i hhere
      rw [ih, List.filter_cons_of_neg (by simp [hhere.1])]
    · rfl

theorem withoutHere_idem (names : List String) :
    withoutHere (withoutHere names) = withoutHere names := by
  induction names with
  | nil => rfl
  | cons name names ih =>
    by_cases hhere : name = "." ∧ names ≠ []
    · rw [withoutHere, if_pos hhere, ih]
    · rw [withoutHere, if_neg hhere, withoutHere, if_neg hhere]

/-- The names in a spelling are spelled like the name itself. -/
theorem headerNames_idem (h : Spells again (headerNames text)) :
    headerNames again = headerNames text := by
  have hloud := h.loudPieces_eq
  unfold headerNames at hloud ⊢
  split at hloud
  · rename_i hsilent
    -- The only name is a `.`, which says nothing.
    rw [hloud, if_pos hsilent]
    rfl
  · rename_i hsome
    have hkept : (loudPieces text).filter (· != ".") = loudPieces text :=
      List.filter_eq_self.2 fun n hn => bne_iff_ne.2 (mem_loudPieces_iff.1 hn).2.2
    rw [hloud, hkept, if_neg hsome]

/-- Whether spelled names fit a header is settled by how a header spells them. -/
theorem Spells.fitsHeader_congr {more : List String} (h : Spells text names)
    (hagain : Spells again more) (hsame : headerNames again = headerNames text) :
    FitsHeader again ↔ FitsHeader text := by
  have hname : headerName again = headerName text := by
    rw [headerName, headerName, hsame, h.lastSlash_eq_nil, hagain.lastSlash_eq_nil]
  rw [fitsHeader_iff, fitsHeader_iff, hsame, hname]

theorem isName_of_mem_repackedNames (h : ∀ n ∈ names, Path.IsName n) :
    ∀ n ∈ repackedNames names, Path.IsName n := by
  by_cases hfits : FitsHeader (Text.dropSlashes (Path.ofNames names))
  · rw [repackedNames_of_fits hfits]
    exact isName_of_mem_headerNames hfits
  · rw [repackedNames_of_not_fits hfits]
    exact fun n hn => h n ((withoutHere_suffix names).subset hn)

/-- Names that were stored and read once are stored and read without a change. -/
theorem repackedNames_idem (h : ∀ n ∈ names, Path.IsName n) :
    repackedNames (repackedNames names) = repackedNames names := by
  have hspells := spells_dropSlashes h
  have hagain := spells_dropSlashes (isName_of_mem_repackedNames h)
  by_cases hfits : FitsHeader (Text.dropSlashes (Path.ofNames names))
  · -- The names of a spelling are spelled in the same way, so they fit as well.
    rw [repackedNames_of_fits hfits] at hagain ⊢
    have hsame := headerNames_idem hagain
    rw [repackedNames_of_fits ((hspells.fitsHeader_congr hagain hsame).2 hfits), hsame]
  · -- A header leaves out what a reader drops, so the shorter name does not fit either.
    rw [repackedNames_of_not_fits hfits] at hagain ⊢
    have hsame : headerNames (Text.dropSlashes (Path.ofNames (withoutHere names))) =
        headerNames (Text.dropSlashes (Path.ofNames names)) := by
      rw [headerNames, headerNames, hagain.loudPieces_eq, hspells.loudPieces_eq, filter_withoutHere]
    rw [repackedNames_of_not_fits (mt (hspells.fitsHeader_congr hagain hsame).1 hfits),
      withoutHere_idem]

/-- A header leaves a `.` out, unless it is all there is. -/
theorem Spells.headerNames_eq_self_iff (h : Spells text names) (hne : names ≠ []) :
    headerNames text = names ↔ names = ["."] ∨ "." ∉ names := by
  constructor
  · intro hsame
    rw [headerNames, h.loudPieces_eq] at hsame
    split at hsame
    · exact Or.inl hsame.symm
    · exact Or.inr fun hmem => by simpa using List.filter_eq_self.1 hsame "." hmem
  · rintro (rfl | hhere)
    · rw [headerNames, h.loudPieces_eq]
      rfl
    · exact h.headerNames_of_noHere hne hhere

/-- A `.` is dropped in front of other names. -/
theorem withoutHere_eq_self_iff :
    withoutHere names = names ↔ names = ["."] ∨ names.head? ≠ some "." := by
  cases names with
  | nil => simp [withoutHere]
  | cons name others =>
    rw [withoutHere]
    split
    · rename_i hhere
      rcases hhere with ⟨rfl, hothers⟩
      constructor
      · -- What is left is shorter.
        intro hsame
        have hlength := (withoutHere_suffix others).length_le
        rw [hsame, List.length_cons] at hlength
        omega
      · simp [hothers]
    · rename_i hkept
      by_cases hname : name = "." <;> simp_all

/-- The names that are stored and read without a change. -/
theorem repackedNames_eq_self_iff (h : ∀ n ∈ names, Path.IsName n) (hne : names ≠ []) :
    repackedNames names = names ↔
      (FitsHeader (Text.dropSlashes (Path.ofNames names)) → names = ["."] ∨ "." ∉ names) ∧
        (¬FitsHeader (Text.dropSlashes (Path.ofNames names)) → names.head? ≠ some ".") := by
  have hspells := spells_dropSlashes h
  by_cases hfits : FitsHeader (Text.dropSlashes (Path.ofNames names))
  · rw [repackedNames_of_fits hfits, hspells.headerNames_eq_self_iff hne]
    simp [hfits]
  · -- A `.` alone fits every header.
    have hdot : names ≠ ["."] := by
      rintro rfl
      exact hfits ⟨by decide, by decide, by decide⟩
    rw [repackedNames_of_not_fits hfits, withoutHere_eq_self_iff]
    simp [hfits, hdot]

end Twice

/-! ## Archives -/

/-- A path that is the same once it was packed and unpacked.  A header leaves each `.` out, unless
the path is made of them; of a name that does not fit a header only the `.` at its start are
dropped. -/
structure IsKept (path : String) : Prop where
  spelled : FitsHeader (Text.dropSlashes path) → path = "/." ∨ "." ∉ Path.segments path
  asItIs : ¬FitsHeader (Text.dropSlashes path) → (Path.segments path).head? ≠ some "."

/-- The path under which a packed file is read. -/
def repackedPath (path : String) : String :=
  treePathOf (storedName path)

section Archives

variable {path : String} {names : List String}

theorem repackedPath_ofNames (h : ∀ n ∈ names, Path.IsName n) :
    repackedPath (Path.ofNames names) = Path.ofNames (repackedNames names) :=
  (placeOf_eq_ok (placeOf_storedName h)).1.symm

theorem repackedPath_idem (h : Path.error? path = none) :
    repackedPath (repackedPath path) = repackedPath path := by
  rcases Path.exists_names h with ⟨names, hnames, rfl⟩
  rw [repackedPath_ofNames hnames, repackedPath_ofNames (isName_of_mem_repackedNames hnames),
    repackedNames_idem hnames]

theorem repackedPath_eq_self_iff (h : Path.error? path = none) (hroot : path ≠ Path.root) :
    repackedPath path = path ↔ IsKept path := by
  rcases Path.exists_names h with ⟨names, hnames, rfl⟩
  have hne : names ≠ [] := mt (Path.ofNames_eq_root_iff hnames).2 hroot
  have hhere : Path.ofNames names = "/." ↔ names = ["."] := by
    have hdot : ∀ n ∈ ["."], Path.IsName n := by
      intro n hn
      rw [List.mem_singleton.1 hn]
      exact ⟨by decide, by decide, by decide⟩
    exact Path.ofNames_inj hnames hdot
  have hsegments := Path.segments_ofNames (fun n hn => (hnames n hn).no_slash) hne
  rw [repackedPath_ofNames hnames, Path.ofNames_inj (isName_of_mem_repackedNames hnames) hnames,
    repackedNames_eq_self_iff hnames hne, ← hhere]
  constructor
  · rintro ⟨spelled, asItIs⟩
    exact ⟨by rwa [hsegments], by rwa [hsegments]⟩
  · rintro ⟨spelled, asItIs⟩
    rw [hsegments] at spelled asItIs
    exact ⟨spelled, asItIs⟩

/-- Packed files are fragments of the same contents under the repacked paths. -/
theorem isFragment_of_repacked {files : List (String × Bytes)} {fragments : List Bytes}
    (hfiles : ∀ file ∈ files, Path.error? file.1 = none)
    (hpacked : List.Forall₂ (fun file fragment => pack file.1 file.2 = .ok fragment)
      files fragments) :
    List.Forall₂ IsFragment (files.map fun file => (repackedPath file.1, file.2)) fragments := by
  rw [List.forall₂_map_left_iff]
  refine ((List.forall₂_and_left _ _).2 ⟨hfiles, hpacked⟩).imp ?_
  rintro ⟨path, data⟩ fragment ⟨hwell, hpack⟩
  rcases Path.exists_names hwell with ⟨names, hnames, rfl⟩
  rw [repackedPath_ofNames hnames]
  exact isFragment_of_pack_names hnames hpack

/-- A map is the same under repacked paths exactly if it keeps each of its paths. -/
theorem ofPairs_repacked_eq_iff {files : FileMap}
    (hwell : ∀ path ∈ files, Path.error? path = none) (hroot : Path.root ∉ files) :
    FileMap.ofPairs (files.toList.map fun file => (repackedPath file.1, file.2)) = files ↔
      ∀ path ∈ files, IsKept path := by
  have hfixed : ∀ path ∈ files, (repackedPath path = path ↔ IsKept path) := fun path hpath =>
    repackedPath_eq_self_iff (hwell path hpath) fun heq => hroot (heq ▸ hpath)
  constructor
  · intro hsame path hpath
    refine (hfixed path hpath).1 ?_
    -- The path is a repacked one, so it is the same when it is packed again.
    rcases FileMap.mem_iff_exists_mem_toList.1 hpath with ⟨data, hdata⟩
    have hheld := Std.ExtTreeMap.mem_toList_iff_getElem?_eq_some.1 hdata
    rw [← hsame] at hheld
    rcases List.mem_map.1 (FileMap.mem_of_getElem?_ofPairs hheld) with ⟨⟨origin, held⟩, hfile, heq⟩
    have hplace : repackedPath origin = path := (Prod.mk.inj heq).1
    have horigin : origin ∈ files := FileMap.mem_iff_exists_mem_toList.2 ⟨held, hfile⟩
    rw [← hplace, repackedPath_idem (hwell origin horigin)]
  · intro hkept
    have hmap : files.toList.map (fun file => (repackedPath file.1, file.2)) = files.toList := by
      refine (List.map_congr_left ?_).trans (List.map_id files.toList)
      rintro ⟨path, data⟩ hfile
      have hmem : path ∈ files := FileMap.mem_iff_exists_mem_toList.2 ⟨data, hfile⟩
      rw [(hfixed path hmem).2 (hkept path hmem)]
      rfl
    rw [hmap]
    exact foldl_insert_toList files

/-- Of the files of an archive that is read, exactly those can be packed again whose paths are
packable.  If all of them can, then the archive of their fragments is read as well, and as the same
files exactly if every path is kept. -/
theorem repack_unpacked {bytes : Bytes} {files : FileMap} (h : unpack bytes = .ok files) :
    (∀ path data, files[path]? = some data →
      ((∃ fragment, pack path data = .ok fragment) ↔ IsPackable path)) ∧
    ∀ fragments, List.Forall₂ (fun file fragment => pack file.1 file.2 = .ok fragment)
        files.toList fragments → fragments.flatten.length ≤ maxOffset →
      ∃ again, unpack fragments.flatten = .ok again ∧
        (again = files ↔ ∀ path ∈ files, IsKept path) := by
  have hwell : ∀ path data, (path, data) ∈ files.toList → Path.error? path = none :=
    fun path data hfile =>
      error?_of_unpack h (Std.ExtTreeMap.mem_toList_iff_getElem?_eq_some.1 hfile)
  refine ⟨fun path data hheld => exists_pack_iff_isPackable (error?_of_unpack h hheld), ?_⟩
  intro fragments hpacked hoffsets
  have hfragments := isFragment_of_repacked (fun file hfile => hwell file.1 file.2 hfile) hpacked
  refine ⟨_, unpack_whole hfragments hoffsets, ofPairs_repacked_eq_iff ?_ ?_⟩
  · intro path hpath
    rcases FileMap.mem_iff_exists_mem_toList.1 hpath with ⟨data, hfile⟩
    exact hwell path data hfile
  · -- The root could not have been packed.
    intro hroot
    rcases FileMap.mem_iff_exists_mem_toList.1 hroot with ⟨data, hfile⟩
    rcases exists_of_mapM (mapM_eq_ok_iff.2 hpacked) hfile with ⟨fragment, -, hpack⟩
    exact ((exists_pack_iff_isPackable (hwell _ data hfile)).1 ⟨fragment, hpack⟩).1 rfl

theorem repack_unpacked_long_name :
    ∃ (files : FileMap) (fragments : List Bytes),
      unpack [longNameEntry (Bytes.ofString "😀😀😀😀😀😀😀😀😀😀😀😀😀😀😀😀😀😀😀😀😀😀😀😀😀😀") ++
          fileHeader [] 1 ++ ([8] ++ padding 1),
        fileHeader (Bytes.ofString "./lib/a") 1 ++ ([7] ++ padding 1)].flatten = .ok files ∧
      files.toList = [("/lib/a", [7]), ("/😀😀😀😀😀😀😀😀😀😀😀😀😀😀😀😀😀😀😀😀😀😀😀😀😀😀", [8])] ∧
      List.Forall₂ (fun file fragment => pack file.1 file.2 = .ok fragment) files.toList fragments ∧
      unpack fragments.flatten = .ok files := by
  have hplace : placeOf "😀😀😀😀😀😀😀😀😀😀😀😀😀😀😀😀😀😀😀😀😀😀😀😀😀😀" =
      .ok "/😀😀😀😀😀😀😀😀😀😀😀😀😀😀😀😀😀😀😀😀😀😀😀😀😀😀" := by decide +kernel
  have hgiven : List.Forall₂ IsFragment
      [("/😀😀😀😀😀😀😀😀😀😀😀😀😀😀😀😀😀😀😀😀😀😀😀😀😀😀", [8]), ("/lib/a", [7])]
      [longNameEntry (Bytes.ofString "😀😀😀😀😀😀😀😀😀😀😀😀😀😀😀😀😀😀😀😀😀😀😀😀😀😀") ++ fileHeader [] 1 ++
          ([8] ++ padding 1),
        fileHeader (Bytes.ofString "./lib/a") 1 ++ ([7] ++ padding 1)] :=
    .cons (.intro (.long (by decide)) hplace)
      (.cons (.intro (.plain (by decide) (by decide)) rfl) .nil)
  have hunpack := unpack_whole hgiven (by decide +kernel)
  have hlist : (FileMap.ofPairs [("/😀😀😀😀😀😀😀😀😀😀😀😀😀😀😀😀😀😀😀😀😀😀😀😀😀😀", [8]),
      ("/lib/a", [7])]).toList =
      [("/lib/a", [7]), ("/😀😀😀😀😀😀😀😀😀😀😀😀😀😀😀😀😀😀😀😀😀😀😀😀😀😀", [8])] := by decide +kernel
  generalize FileMap.ofPairs [("/😀😀😀😀😀😀😀😀😀😀😀😀😀😀😀😀😀😀😀😀😀😀😀😀😀😀", [8]),
    ("/lib/a", [7])] = files at hunpack hlist
  have hshort : pack "/lib/a" [7] =
      .ok (fileHeader (Bytes.ofString "lib/a") 1 ++ [7] ++ padding 1) := by decide +kernel
  -- The name takes 104 octets, of which the header has the first 100.
  have hlong : pack "/😀😀😀😀😀😀😀😀😀😀😀😀😀😀😀😀😀😀😀😀😀😀😀😀😀😀" [8] =
      .ok (longNameEntry (Bytes.ofString "😀😀😀😀😀😀😀😀😀😀😀😀😀😀😀😀😀😀😀😀😀😀😀😀😀😀") ++
        fileHeader (Bytes.ofString "😀😀😀😀😀😀😀😀😀😀😀😀😀😀😀😀😀😀😀😀😀😀😀😀😀") 1 ++ [8] ++
        padding 1) := by decide +kernel
  obtain ⟨fragments, hpacked, hoffsets⟩ : ∃ fragments,
      List.Forall₂ (fun file fragment => pack file.1 file.2 = .ok fragment) files.toList fragments ∧
        fragments.flatten.length ≤ maxOffset := by
    rw [hlist]
    exact ⟨_, .cons hshort (.cons hlong .nil), by decide +kernel⟩
  rcases (repack_unpacked hunpack).2 fragments hpacked hoffsets with ⟨again, hagain, hsame⟩
  have hkept : ∀ path ∈ files, IsKept path := by
    intro path hpath
    rcases FileMap.mem_iff_exists_mem_toList.1 hpath with ⟨data, hfile⟩
    rw [hlist] at hfile
    simp only [List.mem_cons, List.not_mem_nil, or_false, Prod.mk.injEq] at hfile
    rcases hfile with ⟨rfl, -⟩ | ⟨rfl, -⟩
    · exact ⟨fun _ => Or.inr (by decide), fun _ => by decide⟩
    · exact ⟨fun _ => Or.inr (by decide +kernel), fun _ => by decide +kernel⟩
  rw [hsame.2 hkept] at hagain
  exact ⟨files, fragments, hunpack, hlist, hpacked, hagain⟩

/-- Archives that are read, and that are not the same once they are packed again: a `.` among the
names is lost, and neither the root nor a name with a NUL can be packed. -/
theorem repacking_loses :
    (∃ files again : FileMap, ∃ fragment,
      unpack (fileHeader (Bytes.ofString "a/./b") 1 ++ ([7] ++ padding 1)) = .ok files ∧
      files.toList = [("/a/./b", [7])] ∧ pack "/a/./b" [7] = .ok fragment ∧
      unpack fragment = .ok again ∧ again.toList = [("/a/b", [7])]) ∧
    (∃ files : FileMap,
      unpack (fileHeader (Bytes.ofString "./") 1 ++ ([7] ++ padding 1)) = .ok files ∧
      files.toList = [("/", [7])] ∧ pack "/" [7] = .error (.nameless "/")) ∧
    ∃ files : FileMap,
      unpack (longNameEntry (Bytes.ofString "a\x00b") ++ fileHeader [] 1 ++ ([7] ++ padding 1)) =
        .ok files ∧
      files.toList = [("/a\x00b", [7])] ∧ pack "/a\x00b" [7] = .error (.io .nulInName) := by
  have hread : ∀ {name place : String} {front : Bytes}, Front (Bytes.ofString name) 1 front →
      placeOf name = .ok place → (front ++ ([7] ++ padding 1)).length ≤ maxOffset →
      unpack (front ++ ([7] ++ padding 1)) = .ok (FileMap.ofPairs [(place, [7])]) :=
    fun hfront hplace hoffsets => unpack_front_placed hfront hplace hoffsets
  have hlist := FileMap.toList_ofPairs_singleton
  have hpack : pack "/a/./b" [7] =
      .ok (fileHeader (Bytes.ofString "a/b") 1 ++ ([7] ++ padding 1)) := by decide +kernel
  refine ⟨⟨_, _, _, ?_, hlist _ _, hpack, ?_, hlist _ _⟩, ⟨_, ?_, hlist _ _, ?_⟩,
    ⟨_, ?_, hlist _ _, ?_⟩⟩
  · exact hread (.plain (by decide) (by decide)) rfl (by decide +kernel)
  · exact hread (.plain (by decide) (by decide)) rfl (by decide +kernel)
  · exact hread (.plain (by decide) (by decide)) rfl (by decide +kernel)
  · decide
  · exact hread (.long (by decide)) rfl (by decide +kernel)
  · decide +kernel

end Archives

end Tar
end BuildTree
