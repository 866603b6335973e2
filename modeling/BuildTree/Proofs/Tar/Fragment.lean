import BuildTree.Proofs.Path.Grammar
import BuildTree.Proofs.Tar.StoredName

/-!
# Packed files — every fragment that packing gives holds its file

A path is stored without its first slash.  If a header spells it, every `.` among its names is left
out, and else a reader drops each `.` in front of another name; then the reader puts the slash back.
So a packed path is a fragment in the sense of the stream reader, and of a path of plain names, none
of which is `.`, nothing is lost.
-/

namespace BuildTree
namespace Tar

/-! ## Paths without their first slash -/

/-- A text that is a path without its first slash: names with slashes between them. -/
structure Spells (text : String) (names : List String) : Prop where
  isName : ∀ n ∈ names, Path.IsName n
  toList_eq : text.toList = (Path.spelled names).drop 1

theorem toList_ofNames_eq_cons (names : List String) :
    (Path.ofNames names).toList = '/' :: (Path.spelled names).drop 1 := by
  cases names with
  | nil => rfl
  | cons name names =>
    rw [Path.toList_ofNames (by simp), Path.spelled_cons]
    rfl

namespace Spells

variable {text : String} {name : String} {names : List String}

theorem ne_empty (h : Spells text names) (hne : names ≠ []) : text ≠ "" := by
  rcases List.exists_cons_of_ne_nil hne with ⟨name, names, rfl⟩
  rintro rfl
  have htext := h.toList_eq
  rw [Path.spelled_cons, List.drop_one, List.tail_cons] at htext
  have hname : name.toList = [] := (List.append_eq_nil_iff.1 htext.symm).1
  exact (h.isName name List.mem_cons_self).ne_empty (String.toList_eq_nil_iff.1 hname)

theorem head?_ne (h : Spells text names) : text.toList.head? ≠ some '/' := by
  rw [h.toList_eq]
  cases names with
  | nil => simp
  | cons name names =>
    rw [Path.spelled_cons]
    exact (h.isName name List.mem_cons_self).head?_append_ne (Path.spelled names)

/-- The pieces of a text are the names that it spells. -/
theorem splitOn_eq (h : Spells text (name :: names)) :
    text.toList.splitOn '/' = (name :: names).map String.toList := by
  rw [h.toList_eq, Path.spelled_cons, List.drop_one, List.tail_cons]
  exact Path.splitOn_spelled fun n hn => (h.isName n hn).no_slash

/-- Of the names in a text all but `.` say something. -/
theorem loudPieces_eq (h : Spells text names) : loudPieces text = names.filter (· != ".") := by
  cases names with
  | nil =>
    rw [loudPieces, h.toList_eq]
    rfl
  | cons name names =>
    have hloud : ∀ n ∈ name :: names, (!Disk.isSilent n.toList) = (n != ".") := by
      intro n hn
      have hhere : n = "." ↔ n.toList = ['.'] := String.toList_inj.symm
      rw [Bool.eq_iff_iff]
      simp [Disk.isSilent, (h.isName n hn).ne_empty, hhere]
    have htexts : ((name :: names).filter (· != ".")).map (String.ofList ∘ String.toList) =
        (name :: names).filter (· != ".") :=
      (List.map_congr_left fun n _ => String.ofList_toList).trans (List.map_id _)
    rw [loudPieces, h.splitOn_eq, List.filter_map, List.map_map, ← htexts]
    exact congrArg _ (List.filter_congr hloud)

theorem lastSlash_eq_nil (h : Spells text names) : lastSlash text = [] := by
  rw [lastSlash, h.toList_eq]
  refine if_neg fun hlast => Path.getLast?_spelled_ne h.isName ?_
  rw [List.drop_one, List.getLast?_tail] at hlast
  split at hlast
  · cases hlast
  · exact hlast

end Spells

/-- A path of names is stored without its first slash. -/
theorem spells_dropSlashes {names : List String} (h : ∀ n ∈ names, Path.IsName n) :
    Spells (Text.dropSlashes (Path.ofNames names)) names := by
  have hspells : Spells (String.ofList ((Path.spelled names).drop 1)) names :=
    ⟨h, String.toList_ofList⟩
  have hslash := hspells.head?_ne
  rw [String.toList_ofList] at hslash
  refine ⟨h, ?_⟩
  rw [Text.dropSlashes, String.toList_ofList, toList_ofNames_eq_cons,
    List.dropWhile_cons_of_pos (by rfl), Path.dropWhile_slash_eq_self hslash]

/-! ## Places of spelled names -/

/-- Names without each `.` in front that has another name behind it. -/
def withoutHere : List String → List String
  | [] => []
  | name :: names => if name = "." ∧ names ≠ [] then withoutHere names else name :: names

section Places

variable {text : String} {names : List String}

theorem withoutHere_suffix (names : List String) : withoutHere names <:+ names := by
  induction names with
  | nil => exact List.suffix_refl _
  | cons name names ih =>
    rw [withoutHere]
    split
    · exact ih.trans (List.suffix_cons name names)
    · exact List.suffix_refl _

/-- Nothing is dropped in front of a name that is not `.`. -/
theorem dropHere_of_name {name : String} {rest : List Char} (hslash : '/' ∉ name.toList)
    (hhere : name ≠ ".") (hrest : rest = [] ∨ rest.head? = some '/') :
    Text.dropHere (name.toList ++ rest) = name.toList ++ rest := by
  unfold Text.dropHere
  split
  · rename_i more hmore
    have hsplit : name.toList = ['.'] ∧ rest = '/' :: more :=
      Path.append_inj_of_slash hslash (by decide) hrest (Or.inr rfl) hmore
    exact absurd (String.toList_inj.1 hsplit.1) hhere
  · rfl

/-- A reader drops each `.` in front of another name. -/
theorem dropHere_eq (h : ∀ n ∈ names, Path.IsName n) :
    Text.dropHere ((Path.spelled names).drop 1) = (Path.spelled (withoutHere names)).drop 1 := by
  induction names with
  | nil => rfl
  | cons name names ih =>
    have hbehind := ih fun n hn => h n (List.mem_cons_of_mem name hn)
    rw [withoutHere]
    by_cases hhere : name = "."
    · subst hhere
      cases names with
      | nil => rfl
      | cons next names =>
        rw [if_pos ⟨rfl, List.cons_ne_nil _ _⟩, ← hbehind]
        simp [Text.dropHere]
    · rw [if_neg fun hboth => hhere hboth.1, Path.spelled_cons]
      exact dropHere_of_name (h name List.mem_cons_self).no_slash hhere (Path.spelled_head names)

/-- A reader puts the slash in front of the names back. -/
theorem Spells.placeOf_eq (h : Spells text names) :
    placeOf text = .ok (Path.ofNames (withoutHere names)) := by
  have hdropped : Spells (String.ofList (Text.dropHere text.toList)) (withoutHere names) :=
    ⟨fun n hn => h.isName n ((withoutHere_suffix names).subset hn), by
      rw [String.toList_ofList, h.toList_eq, dropHere_eq h.isName]⟩
  have hpath : "/" ++ Text.dropSlashes (String.ofList (Text.dropHere text.toList)) =
      Path.ofNames (withoutHere names) := by
    apply String.toList_inj.1
    rw [Text.dropSlashes, Path.dropWhile_slash_eq_self hdropped.head?_ne, String.ofList_toList,
      String.toList_append, hdropped.toList_eq, toList_ofNames_eq_cons]
    rfl
  have hwell := Path.error?_ofNames hdropped.isName
  unfold placeOf TreePath.ofRelative
  rw [hpath, TreePath.parse_of_wellFormed hwell]

/-! ## Stored names of paths -/

theorem isName_of_mem_headerNames (h : FitsHeader text) :
    ∀ n ∈ headerNames text, Path.IsName n :=
  fun _ hn => ⟨ne_empty_of_mem_headerNames hn, fun hup => h.noUp (hup ▸ hn),
    no_slash_of_mem_headerNames hn⟩

/-- A spelling has a `.` only if that is all there is. -/
theorem withoutHere_headerNames (text : String) :
    withoutHere (headerNames text) = headerNames text := by
  rcases List.exists_cons_of_ne_nil (headerNames_ne_nil text) with ⟨name, names, hnames⟩
  rw [hnames, withoutHere, if_neg]
  rintro ⟨rfl, hne⟩
  unfold headerNames at hnames
  split at hnames
  · exact hne (List.cons.inj hnames).2.symm
  · exact (mem_loudPieces_iff.1 (hnames ▸ List.mem_cons_self)).2.2 rfl

theorem spells_headerName (h : FitsHeader text) (hlast : lastSlash text = []) :
    Spells (headerName text) (headerNames text) :=
  ⟨isName_of_mem_headerNames h, by
    rw [headerName, String.toList_ofList, hlast, List.append_nil]⟩

/-- The spelling of a name without a slash at its end is read as the names in it. -/
theorem placeOf_headerName (h : FitsHeader text) (hlast : lastSlash text = []) :
    placeOf (headerName text) = .ok (Path.ofNames (headerNames text)) := by
  rw [(spells_headerName h hlast).placeOf_eq, withoutHere_headerNames]

/-- The names of a path that was stored and read again. -/
def repackedNames (names : List String) : List String :=
  let name := Text.dropSlashes (Path.ofNames names)
  if FitsHeader name then headerNames name else withoutHere names

theorem repackedNames_of_fits (h : FitsHeader (Text.dropSlashes (Path.ofNames names))) :
    repackedNames names = headerNames (Text.dropSlashes (Path.ofNames names)) := by
  rw [repackedNames, if_pos h]

theorem repackedNames_of_not_fits (h : ¬FitsHeader (Text.dropSlashes (Path.ofNames names))) :
    repackedNames names = withoutHere names := by
  rw [repackedNames, if_neg h]

theorem placeOf_storedName (h : ∀ n ∈ names, Path.IsName n) :
    placeOf (storedName (Path.ofNames names)) = .ok (Path.ofNames (repackedNames names)) := by
  have hspells := spells_dropSlashes h
  by_cases hfits : FitsHeader (Text.dropSlashes (Path.ofNames names))
  · rw [storedName, if_pos hfits, repackedNames_of_fits hfits]
    exact placeOf_headerName hfits hspells.lastSlash_eq_nil
  · rw [storedName, if_neg hfits, repackedNames_of_not_fits hfits]
    exact hspells.placeOf_eq

/-- What packing gives for a path is a fragment that holds the file under the repacked path. -/
theorem isFragment_of_pack_names {data fragment : Bytes} (h : ∀ n ∈ names, Path.IsName n)
    (hpack : pack (Path.ofNames names) data = .ok fragment) :
    IsFragment (Path.ofNames (repackedNames names), data) fragment := by
  rcases exists_front_of_pack hpack with ⟨front, hfront, rfl⟩
  exact IsFragment.intro hfront (placeOf_storedName h)

end Places

/-! ## Plain paths -/

/-- A path of names none of which is `.`; such names are written as they are. -/
structure IsPlain (path : String) : Prop where
  wellFormed : Path.error? path = none
  ne_root : path ≠ Path.root
  noHere : "." ∉ Path.segments path

section Plain

variable {names : List String}

theorem withoutHere_of_noHere (h : "." ∉ names) : withoutHere names = names := by
  cases names with
  | nil => rfl
  | cons name names =>
    rw [withoutHere, if_neg]
    rintro ⟨rfl, -⟩
    exact h List.mem_cons_self

theorem Spells.headerNames_of_noHere {text : String} (h : Spells text names) (hne : names ≠ [])
    (hhere : "." ∉ names) : headerNames text = names := by
  have hkept : names.filter (· != ".") = names :=
    List.filter_eq_self.2 fun n hn => bne_iff_ne.2 fun heq => hhere (heq ▸ hn)
  rw [headerNames, h.loudPieces_eq, hkept, if_neg hne]

/-- Names none of which is `.` are all stored. -/
theorem repackedNames_of_noHere (hnames : ∀ n ∈ names, Path.IsName n) (hne : names ≠ [])
    (hhere : "." ∉ names) : repackedNames names = names := by
  by_cases hfits : FitsHeader (Text.dropSlashes (Path.ofNames names))
  · rw [repackedNames_of_fits hfits, (spells_dropSlashes hnames).headerNames_of_noHere hne hhere]
  · rw [repackedNames_of_not_fits hfits, withoutHere_of_noHere hhere]

/-- What packing gives for a plain path is a fragment that holds the file. -/
theorem isFragment_of_pack {path : String} {data fragment : Bytes} (hplain : IsPlain path)
    (h : pack path data = .ok fragment) : IsFragment (path, data) fragment := by
  rcases Path.exists_names hplain.wellFormed with ⟨names, hnames, rfl⟩
  have hne : names ≠ [] := fun hnil => hplain.ne_root (by rw [hnil]; rfl)
  have hhere := hplain.noHere
  rw [Path.segments_ofNames (fun n hn => (hnames n hn).no_slash) hne] at hhere
  have hfragment := isFragment_of_pack_names hnames h
  rwa [repackedNames_of_noHere hnames hne hhere] at hfragment

end Plain

end Tar
end BuildTree
