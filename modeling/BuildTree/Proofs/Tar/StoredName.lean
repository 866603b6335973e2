import BuildTree.Proofs.Tar.Spelling

/-!
# Stored names — the name under which a fragment holds a path

A name is stored as a header spells it, if the spelling can be written into a header.  Else it is
stored as it is, in a long-name entry, provided that it is long enough and that a header can hold the
cut name.  Any other name cannot be packed.
-/

namespace BuildTree
namespace Tar

/-! ## Writing pieces into a field -/

/-- Pieces that were written without a fault: all are pieces of text, they fit, and none of them
holds a NUL. -/
theorem exists_of_writePieces_eq {room : Nat} {pieces : List (Except BlockError Bytes)}
    {text : Bytes} (h : writePieces room pieces = (text, none)) :
    ∃ written : List Bytes, pieces = written.map .ok ∧ text = written.flatten ∧
      text.length ≤ room ∧ 0 ∉ text := by
  induction pieces generalizing room text with
  | nil =>
    have htext : [] = text := (Prod.mk.inj h).1
    subst htext
    exact ⟨[], rfl, rfl, Nat.zero_le _, by simp⟩
  | cons piece pieces ih =>
    cases piece with
    | error err => simp [writePieces] at h
    | ok piece =>
      rw [writePieces] at h
      split at h
      · simp at h
      · -- The piece fits, and it is written if it has no NUL.
        rename_i hroom
        split at h
        · simp at h
        · rename_i hnul
          cases hrest : writePieces (room - piece.length) pieces with
          | mk behind fault =>
          rw [hrest] at h
          rcases Prod.mk.inj h with ⟨rfl, rfl⟩
          rcases ih hrest with ⟨written, rfl, hflat, hlength, hclean⟩
          have hpiece : 0 ∉ piece := by simpa using hnul
          refine ⟨piece :: written, rfl, ?_, ?_, ?_⟩
          · rw [hflat, List.flatten_cons]
          · rw [List.length_append]
            omega
          · rw [List.mem_append]
            exact fun hmem => hmem.elim hpiece hclean

/-- Pieces of text that fit and hold no NUL are written without a fault. -/
theorem writePieces_map_ok {room : Nat} {pieces : List Bytes}
    (hroom : pieces.flatten.length ≤ room) (hnul : 0 ∉ pieces.flatten) :
    writePieces room (pieces.map .ok) = (pieces.flatten, none) := by
  induction pieces generalizing room with
  | nil => rfl
  | cons piece pieces ih =>
    rw [List.flatten_cons, List.length_append] at hroom
    rw [List.flatten_cons, List.mem_append, not_or] at hnul
    have hfits : ¬room < piece.length := by omega
    have hclean : ¬piece.contains 0 = true := by simpa using hnul.1
    rw [List.map_cons, writePieces, if_neg hfits, if_neg hclean, ih (by omega) hnul.2,
      List.flatten_cons]

theorem length_overwrite (field text : Bytes) : (overwrite field text).length = field.length := by
  simp only [overwrite, List.length_take, List.length_append, List.length_drop]
  omega

/-- Over an empty field a text that fits is filled up with zeros. -/
theorem overwrite_zeros {width : Nat} {text : Bytes} (h : text.length ≤ width) :
    overwrite (Bytes.zeros width) text = field width text := by
  rcases Nat.lt_or_eq_of_le h with hlt | heq
  · -- The NUL behind the text is one of the zeros that fill the field.
    obtain ⟨room, hroom⟩ : ∃ room, width - text.length = room + 1 :=
      ⟨width - text.length - 1, by omega⟩
    have hdrop : (Bytes.zeros width).drop (text ++ [0]).length = Bytes.zeros room := by
      rw [Bytes.zeros, List.drop_replicate, List.length_append, List.length_singleton, Bytes.zeros]
      congr 1
      omega
    have hzeros : text ++ [0] ++ Bytes.zeros room = field width text := by
      rw [field, hroom, List.append_assoc]
      rfl
    have hlength : (field width text).length = (Bytes.zeros width).length := by
      rw [length_field h, Bytes.length_zeros]
    rw [overwrite, hdrop, hzeros, ← hlength, List.take_length]
  · -- A text that fills the field has its NUL cut off.
    have hfield : field width text = text := by simp [field, heq, Bytes.zeros]
    rw [overwrite, Bytes.length_zeros, List.append_assoc, List.take_left' heq, hfield]

/-- A header does not tell a name from a field that was filled up already. -/
theorem fileHeader_field {name : Bytes} (size : Nat) (h : name.length ≤ nameWidth) :
    fileHeader (field nameWidth name) size = fileHeader name size := by
  have hfield : field nameWidth (field nameWidth name) = field nameWidth name := by
    rw [field, length_field h, Nat.sub_self]
    exact List.append_nil _
  simp only [fileHeader, headerParts, hfield]

theorem length_of_writeName {field written : Bytes} {name : String} {cut : Bool}
    {fault : Option BlockError} (h : writeName field name cut = (written, fault)) :
    written.length = field.length := by
  rw [← (Prod.mk.inj h).1]
  exact length_overwrite _ _

/-! ## Names in headers -/

section Names

variable {name : String} {cut : Bool}

/-- The spelling of a name can be written into a header. -/
structure Fits (cut : Bool) (name : String) : Prop where
  writable : IsWritable cut name
  noNul : '\x00' ∉ (headerName name).toList
  room : (Bytes.ofString (headerName name)).length ≤ nameWidth

theorem writeName_of_fits {field : Bytes} (hfield : field.length = nameWidth) (hne : name ≠ "")
    (hslash : name.toList.head? ≠ some '/') (h : Fits cut name) :
    writeName field name cut = (overwrite field (Bytes.ofString (headerName name)), none) := by
  have hflat := flatten_pieces name
  have hroom : (joinedPieces (headerNames name) ++ lastPieces name).flatten.length ≤
      field.length := by
    rw [hflat, hfield]
    exact h.room
  have hnul : 0 ∉ (joinedPieces (headerNames name) ++ lastPieces name).flatten := by
    rw [hflat, zero_mem_ofString_iff]
    exact h.noNul
  rw [writeName, namePieces_eq hne hslash h.writable, writePieces_map_ok hroom hnul, hflat]

theorem fits_of_writeName {field written : Bytes} (hfield : field.length = nameWidth)
    (hne : name ≠ "") (hslash : name.toList.head? ≠ some '/')
    (h : writeName field name cut = (written, none)) : Fits cut name := by
  cases hpieces : writePieces field.length (namePieces name cut) with
  | mk text fault =>
    rw [writeName, hpieces] at h
    rcases Prod.mk.inj h with ⟨-, rfl⟩
    rcases exists_of_writePieces_eq hpieces with ⟨pieces, hmap, rfl, hroom, hnul⟩
    have hwritable := isWritable_of_namePieces_eq hne hslash hmap
    -- The pieces that were written are those of the spelling.
    have hok : Function.Injective (Except.ok : Bytes → Except BlockError Bytes) :=
      fun _ _ heq => Except.ok.inj heq
    have hsame := List.map_injective_iff.2 hok (hmap.symm.trans (namePieces_eq hne hslash hwritable))
    rw [hsame, flatten_pieces] at hroom hnul
    exact ⟨hwritable, fun hmem => hnul (zero_mem_ofString_iff.2 hmem), hroom.trans hfield.le⟩

/-- The whole name can be written into a header, by its components. -/
structure FitsHeader (name : String) : Prop where
  noUp : ".." ∉ headerNames name
  noNul : '\x00' ∉ (headerName name).toList
  room : (Bytes.ofString (headerName name)).length ≤ nameWidth

theorem fitsHeader_iff : FitsHeader name ↔ ".." ∉ headerNames name ∧
    '\x00' ∉ (headerName name).toList ∧ (Bytes.ofString (headerName name)).length ≤ nameWidth :=
  ⟨fun h => ⟨h.noUp, h.noNul, h.room⟩, fun ⟨noUp, noNul, room⟩ => ⟨noUp, noNul, room⟩⟩

instance : Decidable (FitsHeader name) :=
  decidable_of_iff _ fitsHeader_iff.symm

theorem fits_false_iff : Fits false name ↔ FitsHeader name :=
  ⟨fun h => ⟨isWritable_false_iff.1 h.writable, h.noNul, h.room⟩,
    fun h => ⟨isWritable_false_iff.2 h.noUp, h.noNul, h.room⟩⟩

/-! ### Cut names -/

theorem isPrefix_fitting (room : Nat) (text : List Char) : fitting room text <+: text := by
  induction text generalizing room with
  | nil => exact List.prefix_refl _
  | cons c cs ih =>
    rw [fitting]
    split
    · exact (List.prefix_cons_inj c).2 (ih _)
    · exact List.nil_prefix

theorem length_fitting_le (room : Nat) (text : List Char) :
    ((fitting room text).flatMap String.utf8EncodeChar).length ≤ room := by
  induction text generalizing room with
  | nil => exact Nat.zero_le _
  | cons c cs ih =>
    rw [fitting]
    split
    · have hrest := ih (room - (String.utf8EncodeChar c).length)
      rw [List.flatMap_cons, List.length_append]
      omega
    · exact Nat.zero_le _

/-- Nothing is cut off a text that fits as a whole. -/
theorem fitting_eq_self {room : Nat} {text : List Char}
    (h : (text.flatMap String.utf8EncodeChar).length ≤ room) : fitting room text = text := by
  induction text generalizing room with
  | nil => rfl
  | cons c cs ih =>
    rw [List.flatMap_cons, List.length_append] at h
    rw [fitting, if_pos (by omega), ih (by omega)]

/-- What a header holds of a name that is stored in an entry of its own. -/
def cutName (name : String) : String :=
  String.ofList (fitting nameWidth name.toList)

theorem toList_cutName (name : String) : (cutName name).toList = fitting nameWidth name.toList :=
  String.toList_ofList

/-- A name that is cut still has its first character. -/
theorem head?_cutName (name : String) : (cutName name).toList.head? = name.toList.head? := by
  rw [toList_cutName]
  cases name.toList with
  | nil => rfl
  | cons c cs =>
    have hwidth : (String.utf8EncodeChar c).length ≤ nameWidth := by
      rw [String.length_utf8EncodeChar]
      exact c.utf8Size_le_four.trans (by decide)
    rw [fitting, if_pos hwidth]
    rfl

theorem cutName_ne_empty (hne : name ≠ "") : cutName name ≠ "" := by
  intro hcut
  have hhead := head?_cutName name
  rw [hcut] at hhead
  exact hne (String.toList_inj.1 (List.head?_eq_none_iff.1 hhead.symm))

/-- There is room for a cut name, so only its components and its characters count. -/
theorem fits_cutName_iff (hne : name ≠ "") (hslash : name.toList.head? ≠ some '/') :
    Fits true (cutName name) ↔
      ".." ∉ (headerNames (cutName name)).dropLast ∧ '\x00' ∉ fitting nameWidth name.toList := by
  have hcut := cutName_ne_empty hne
  have hhead : (cutName name).toList.head? ≠ some '/' := by rwa [head?_cutName]
  have hnul : '\x00' ∈ (headerName (cutName name)).toList ↔
      '\x00' ∈ fitting nameWidth name.toList := by
    rw [mem_headerName_iff hcut hhead (by decide) (by decide), toList_cutName]
  constructor
  · intro h
    exact ⟨fun hup => h.writable.noneBefore _ hup rfl, fun hmem => h.noNul (hnul.2 hmem)⟩
  · rintro ⟨hup, hclean⟩
    refine ⟨⟨fun n hn heq => hup (heq ▸ hn), Or.inl rfl⟩, fun hmem => hclean (hnul.1 hmem), ?_⟩
    have hroom := length_fitting_le nameWidth name.toList
    rw [← toList_cutName] at hroom
    exact (length_ofString_le (headerName_sublist hcut hhead)).trans hroom

/-! ## Headers -/

variable {front : Bytes}

/-- A name that fits is in the header. -/
theorem headers_of_fits (hne : name ≠ "") (hslash : name.toList.head? ≠ some '/')
    (h : FitsHeader name) (size : Nat) :
    headers name size = .ok (fileHeader (Bytes.ofString (headerName name)) size) := by
  have hwritten := writeName_of_fits (Bytes.length_zeros nameWidth) hne hslash (fits_false_iff.2 h)
  simp only [headers, hwritten, overwrite_zeros h.room, fileHeader_field size h.room]

/-- A long name that does not fit is in an entry of its own, and cut in the header. -/
theorem exists_headers_of_cut (hne : name ≠ "") (hslash : name.toList.head? ≠ some '/')
    (hfits : ¬FitsHeader name) (hlong : nameWidth ≤ (Bytes.ofString name).length)
    (hcut : Fits true (cutName name)) (size : Nat) :
    ∃ field, field.length = nameWidth ∧
      headers name size = .ok (longNameEntry (Bytes.ofString name) ++ fileHeader field size) := by
  have hzeros := Bytes.length_zeros nameWidth
  cases hwritten : writeName (Bytes.zeros nameWidth) name false with
  | mk written fault =>
    have hlength : written.length = nameWidth := (length_of_writeName hwritten).trans hzeros
    cases fault with
    | none => exact absurd (fits_false_iff.1 (fits_of_writeName hzeros hne hslash hwritten)) hfits
    | some err =>
      have hsecond := writeName_of_fits hlength (cutName_ne_empty hne) (by rwa [head?_cutName]) hcut
      refine ⟨_, (length_of_writeName hsecond).trans hlength, ?_⟩
      simp only [headers, hwritten, Nat.not_lt.2 hlong, if_false]
      rw [← cutName, hsecond]

/-- Any other name cannot be written. -/
theorem fits_of_headers (hne : name ≠ "") (hslash : name.toList.head? ≠ some '/') {size : Nat}
    (h : headers name size = .ok front) :
    FitsHeader name ∨ nameWidth ≤ (Bytes.ofString name).length ∧ Fits true (cutName name) := by
  have hzeros := Bytes.length_zeros nameWidth
  cases hwritten : writeName (Bytes.zeros nameWidth) name false with
  | mk written fault =>
    have hlength : written.length = nameWidth := (length_of_writeName hwritten).trans hzeros
    cases fault with
    | none => exact Or.inl (fits_false_iff.1 (fits_of_writeName hzeros hne hslash hwritten))
    | some err =>
      -- A short name is an error then, and so is a name that does not fit when it is cut.
      simp only [headers, hwritten] at h
      split at h
      · cases h
      · rename_i hlong
        split at h
        · cases h
        · rename_i hcut
          exact Or.inr ⟨Nat.not_lt.1 hlong, fits_of_writeName hlength (cutName_ne_empty hne)
            (by rwa [head?_cutName]) hcut⟩

/-- The front of a file announces the spelling of a name that fits, and any other name as it is. -/
theorem front_of_headers (hne : name ≠ "") (hslash : name.toList.head? ≠ some '/') {size : Nat}
    (h : headers name size = .ok front) :
    Front (Bytes.ofString (if FitsHeader name then headerName name else name)) size front := by
  split
  · -- There is just a header, with the spelling in it.
    rename_i hfits
    rw [headers_of_fits hne hslash hfits] at h
    rw [← Except.ok.inj h]
    exact Front.plain hfits.room fun hzero => hfits.noNul (zero_mem_ofString_iff.1 hzero)
  · -- The name is in front, whatever the header behind it holds of the name.
    rename_i hfits
    rcases (fits_of_headers hne hslash h).resolve_left hfits with ⟨hlong, hcut⟩
    rcases exists_headers_of_cut hne hslash hfits hlong hcut size with ⟨field, hlength, hheaders⟩
    rw [hheaders] at h
    rw [← Except.ok.inj h]
    exact Front.long hlength.le

end Names

/-! ## Packed files -/

section Packing

variable {path : String} {data fragment : Bytes}

theorem head?_dropSlashes (text : String) : (Text.dropSlashes text).toList.head? ≠ some '/' := by
  rw [Text.dropSlashes, String.toList_ofList]
  intro hhead
  simpa [hhead] using List.head?_dropWhile_not (· == '/') text.toList

/-- The name under which a packed file is stored. -/
def storedName (path : String) : String :=
  if FitsHeader (Text.dropSlashes path) then headerName (Text.dropSlashes path)
  else Text.dropSlashes path

/-- A packed file is a front that announces its stored name, the contents and their padding. -/
theorem exists_front_of_pack (h : pack path data = .ok fragment) :
    ∃ front, Front (Bytes.ofString (storedName path)) data.length front ∧
      fragment = front ++ (data ++ padding data.length) := by
  unfold pack at h
  dsimp only at h
  split at h
  · cases h
  · rename_i hne
    split at h
    · cases h
    · rename_i front hfront
      cases h
      exact ⟨front, front_of_headers hne (head?_dropSlashes path) hfront, List.append_assoc _ _ _⟩

/-- Exactly those files can be packed that have a name, and one that fits into a header or that is
long enough for an entry of its own and fits once it is cut. -/
theorem exists_pack_iff :
    (∃ fragment, pack path data = .ok fragment) ↔ Text.dropSlashes path ≠ "" ∧
      (FitsHeader (Text.dropSlashes path) ∨
        nameWidth ≤ (Bytes.ofString (Text.dropSlashes path)).length ∧
          Fits true (cutName (Text.dropSlashes path))) := by
  have hslash := head?_dropSlashes path
  unfold pack
  dsimp only
  constructor
  · rintro ⟨fragment, h⟩
    split at h
    · cases h
    · rename_i hne
      split at h
      · cases h
      · rename_i front hfront
        exact ⟨hne, fits_of_headers hne hslash hfront⟩
  · rintro ⟨hne, hfits⟩
    have hheaders : ∃ front, headers (Text.dropSlashes path) data.length = .ok front := by
      by_cases hheader : FitsHeader (Text.dropSlashes path)
      · exact ⟨_, headers_of_fits hne hslash hheader _⟩
      · rcases hfits.resolve_left hheader with ⟨hlong, hcut⟩
        rcases exists_headers_of_cut hne hslash hheader hlong hcut data.length with ⟨_, -, heq⟩
        exact ⟨_, heq⟩
    rcases hheaders with ⟨front, hfront⟩
    exact ⟨_, by rw [if_neg hne, hfront]⟩

end Packing

end Tar
end BuildTree
