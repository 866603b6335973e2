import BuildTree.Proofs.Tar.Header
import BuildTree.Proofs.Text.Utf8

/-!
# Streams of fragments — reading entry by entry

A fragment is a front, the contents of a file and their padding; the front is a header, or a
long-name entry and a header.  Reading steps over one whole fragment and yields its file, and
inside a fragment that was cut off it always meets an error.  A run over many fragments follows by
induction: it yields their files and goes on with whatever stands behind them.
-/

namespace BuildTree
namespace Tar

/-! ## Contents and their padding -/

theorem le_paddedLength (n : Nat) : n ≤ paddedLength n := by
  unfold paddedLength blockSize
  omega

theorem length_append_padding (data : Bytes) :
    (data ++ padding data.length).length = paddedLength data.length := by
  have hle := le_paddedLength data.length
  rw [List.length_append, padding, Bytes.length_zeros]
  omega

/-! ## Single entries -/

section Entries

variable {stream : ByteStream} {ext : Extensions} {block rest : Bytes} {size : Nat} {kind : UInt8}

/-- A size is an offset if its padded length leaves room for one. -/
theorem le_maxOffset_of_padded {start size : Nat} (h : start + paddedLength size ≤ maxOffset) :
    size ≤ maxOffset :=
  le_trans (le_paddedLength size) (le_trans (Nat.le_add_left _ start) h)

theorem effectiveSize_eq {header : Header} (h : ext.records = none) :
    effectiveSize header size ext = size := by
  simp [effectiveSize, h]

/-- A whole header that was written is an entry. -/
theorem entryAt_block (hheader : Header.Describes ⟨block⟩ size kind) (hext : ext.records = none)
    (hend : stream.data.length - (block ++ rest).length + blockSize + paddedLength size ≤
      maxOffset) :
    entryAt stream ext (block ++ rest) = .ok (some ⟨⟨block⟩, size, rest⟩) := by
  have hlength : block.length = blockSize := hheader.length
  have hempty : (block ++ rest).isEmpty = false := by
    have hne : block ≠ [] := by
      rintro rfl
      simp [blockSize] at hlength
    simp [hne]
  have hfull : ¬(block ++ rest).length < blockSize := by
    rw [List.length_append]
    omega
  -- The size and the place behind the contents are checked against the greatest offset.
  have hsize : ¬maxOffset < size + (blockSize - 1) := by
    have hle := le_paddedLength size
    have hpos : blockSize = 512 := rfl
    omega
  have hplace : ¬maxOffset <
      stream.data.length - (block ++ rest).length + blockSize + paddedLength size :=
    Nat.not_lt.2 hend
  have hzero : block.all (· == 0) = false := hheader.nonzero
  rw [entryAt, hempty, Bool.false_and, if_neg (by decide), if_neg hfull]
  simp only [List.take_left' hlength, List.drop_left' hlength, hzero,
    hheader.checksum, hheader.size, effectiveSize_eq hext, hsize, hplace, or_self, if_false,
    Bool.false_eq_true]

/-- A header that was cut off is an error. -/
theorem entryAt_incomplete (hstream : stream.broken = false) (hne : rest ≠ [])
    (hshort : rest.length < blockSize) : entryAt stream ext rest = .error .incompleteBlock := by
  have hempty : rest.isEmpty = false := by simpa using hne
  simp [entryAt, hempty, hshort, hstream]

theorem entryAt_nil (hstream : stream.broken = false) : entryAt stream ext [] = .ok none := by
  simp [entryAt, hstream]

/-- A block of zeros ends the archive, whatever stands behind it. -/
theorem entryAt_zeros : entryAt stream ext (Bytes.zeros blockSize ++ rest) = .ok none := by
  have hempty : (Bytes.zeros blockSize ++ rest).isEmpty = false := by
    have hne : Bytes.zeros blockSize ≠ [] := by
      intro hnil
      have hlength := Bytes.length_zeros blockSize
      rw [hnil, List.length_nil] at hlength
      exact absurd hlength (by decide)
    simp [hne]
  have hfull : ¬(Bytes.zeros blockSize ++ rest).length < blockSize := by simp
  have hzero : (Bytes.zeros blockSize).all (· == 0) = true := by simp [Bytes.zeros]
  rw [entryAt, hempty, Bool.false_and, if_neg (by decide), if_neg hfull]
  simp only [List.take_left' (Bytes.length_zeros blockSize), hzero, if_true]

theorem isExtension_eq {header : Header} (h : header.Describes size kind) (letter : Char) :
    header.isExtension letter = (kind == letter.toUInt8) := by
  simp [Header.isExtension, h.gnu, h.kind]

/-- Contents and their padding are passed over as a whole. -/
theorem skip_append {header : Header} {data : Bytes} :
    Entry.skip ⟨header, data.length, data ++ padding data.length ++ rest⟩ stream = .ok rest := by
  have hlength := length_append_padding data
  have hle : paddedLength data.length ≤ (data ++ padding data.length ++ rest).length := by
    rw [List.length_append, hlength]
    exact Nat.le_add_right _ _
  simp only [Entry.skip, hle, if_true, List.drop_left' hlength]

/-- Contents or padding that were cut off cannot be passed over. -/
theorem skip_cut {header : Header} (hstream : stream.broken = false)
    (hshort : rest.length < paddedLength size) :
    Entry.skip ⟨header, size, rest⟩ stream = .error .unexpectedEnd := by
  simp [Entry.skip, Nat.not_le.2 hshort, hstream]

end Entries

/-! ## Fronts -/

/-- What may stand in front of a file's contents: a header with the whole name, or an entry with the
whole name and a header with some name. -/
inductive Front : (name : Bytes) → (size : Nat) → (front : Bytes) → Prop
  | plain {name : Bytes} {size : Nat} (room : name.length ≤ nameWidth) (noNul : 0 ∉ name) :
      Front name size (fileHeader name size)
  | long {name : Bytes} {size : Nat} {cut : Bytes} (room : cut.length ≤ nameWidth) :
      Front name size (longNameEntry name ++ fileHeader cut size)

/-- A member that is a regular file with a name, a size and what follows its header. -/
structure Member.IsFile (member : Member) (name : Bytes) (size : Nat) (rest : Bytes) : Prop where
  name : effectiveName member.entry.header member.extensions = name
  size : member.entry.size = size
  rest : member.entry.rest = rest
  kind : member.entry.header.kind = 0

/-- A name with the NUL that ends it. -/
def terminated (name : Bytes) : Bytes :=
  name ++ [0]

/-- The header in a long-name entry. -/
def longNameHeader (name : Bytes) : Bytes :=
  (headerParts longNameMarker (octal 8 0 ++ octal 8 0) (terminated name).length 'L'.toUInt8).block

theorem longNameEntry_eq (name : Bytes) :
    longNameEntry name =
      longNameHeader name ++ (terminated name ++ padding (terminated name).length) := by
  simp [longNameEntry, longNameHeader, terminated]

theorem length_longNameEntry (name : Bytes) :
    (longNameEntry name).length = blockSize + paddedLength (terminated name).length := by
  rw [longNameEntry_eq, List.length_append, length_append_padding, longNameHeader,
    length_block (by decide) (by decide)]

theorem describes_fileHeader {name : Bytes} {size : Nat} (hname : name.length ≤ nameWidth)
    (hsize : size ≤ maxOffset) : Header.Describes ⟨fileHeader name size⟩ size 0 :=
  describes_block hname (Bytes.length_zeros 16) hsize

theorem describes_longNameHeader {name : Bytes} (hsize : (terminated name).length ≤ maxOffset) :
    Header.Describes ⟨longNameHeader name⟩ (terminated name).length 'L'.toUInt8 :=
  describes_block (by decide) (by decide) hsize

section Fronts

variable {stream : ByteStream} {fuel : Nat} {name front rest : Bytes} {size : Nat}

/-- The header of a regular file is a member at once. -/
theorem memberAt_fileHeader {ext : Extensions} {written : Bytes} (hname : written.length ≤ nameWidth)
    (hext : ext.records = none)
    (hend : stream.data.length - (fileHeader written size ++ rest).length + blockSize +
      paddedLength size ≤ maxOffset) :
    memberAt stream (fuel + 1) ext (fileHeader written size ++ rest) =
      .ok (some ⟨⟨⟨fileHeader written size⟩, size, rest⟩, ext⟩) := by
  have hheader := describes_fileHeader hname (le_maxOffset_of_padded hend)
  have hadd : ext.add? ⟨⟨fileHeader written size⟩, size, rest⟩ = .ok none := by
    simp only [Extensions.add?, isExtension_eq hheader]
    rfl
  rw [memberAt, entryAt_block hheader hext hend]
  simp only [hadd]

/-- A long-name entry is kept for the member behind it. -/
theorem memberAt_longNameEntry
    (hend : stream.data.length - (longNameEntry name ++ rest).length + (longNameEntry name).length ≤
      maxOffset) :
    memberAt stream (fuel + 1) .empty (longNameEntry name ++ rest) =
      memberAt stream fuel ⟨some (terminated name), none, none⟩ rest := by
  rw [length_longNameEntry, longNameEntry_eq, List.append_assoc, ← Nat.add_assoc] at hend
  rw [longNameEntry_eq, List.append_assoc]
  have hheader := describes_longNameHeader (le_maxOffset_of_padded hend)
  have hadd : Extensions.empty.add? ⟨⟨longNameHeader name⟩, (terminated name).length,
      terminated name ++ padding (terminated name).length ++ rest⟩ =
      .ok (some ⟨some (terminated name), none, none⟩) := by
    -- The name is kept as it stands, its NUL included.
    have htake : (terminated name ++ padding (terminated name).length ++ rest).take
        (terminated name).length = terminated name := by
      rw [List.append_assoc, List.take_left]
    simp only [Extensions.add?, isExtension_eq hheader, htake]
    rfl
  rw [memberAt, entryAt_block hheader rfl hend]
  simp only [hadd, skip_append]

/-- Behind a front stands the member that it announces. -/
theorem Front.exists_member (h : Front name size front) (stream : ByteStream) (fuel : Nat)
    (hend : stream.data.length - (front ++ rest).length + front.length + paddedLength size ≤
      maxOffset) :
    ∃ member, memberAt stream (fuel + 2) .empty (front ++ rest) = .ok (some member) ∧
      member.IsFile name size rest := by
  have hsize := le_maxOffset_of_padded hend
  cases h with
  | plain room noNul =>
    have hheader := describes_fileHeader room hsize
    have hlength : (fileHeader name size).length = blockSize := hheader.length
    -- The name is the one in the header.
    refine ⟨_, memberAt_fileHeader room rfl (by omega), ?_, rfl, rfl, hheader.kind⟩
    exact name_block room (Bytes.length_zeros 16) noNul
  | @long cut room =>
    have hheader := describes_fileHeader room hsize
    have hlength : (fileHeader cut size).length = blockSize := hheader.length
    simp only [List.append_assoc, List.length_append] at hend ⊢
    rw [memberAt_longNameEntry (by simp only [List.length_append]; omega),
      memberAt_fileHeader room rfl (by simp only [List.length_append]; omega)]
    -- The long name wins over the cut one in the header, and loses its NUL.
    refine ⟨_, rfl, ?_, rfl, rfl, hheader.kind⟩
    simp [effectiveName, terminated]

/-- An extension entry that no header follows announces nothing. -/
theorem memberAt_pending_cut {longName : Bytes} (hstream : stream.broken = false)
    (hshort : rest.length < blockSize) :
    ∃ err, memberAt stream (fuel + 1) ⟨some longName, none, none⟩ rest = .error err := by
  by_cases hnil : rest = []
  · -- The archive ends, but a long name waits for its member.
    subst hnil
    refine ⟨.missingMember, ?_⟩
    rw [memberAt, entryAt_nil hstream]
    rfl
  · refine ⟨.incompleteBlock, ?_⟩
    rw [memberAt, entryAt_incomplete hstream hnil hshort]

/-- A long-name entry that was cut off behind its header cannot be passed over. -/
theorem memberAt_longNameEntry_cut (hstream : stream.broken = false)
    (hshort : rest.length < paddedLength (terminated name).length)
    (hend : stream.data.length - (longNameHeader name ++ rest).length + (longNameEntry name).length ≤
      maxOffset) :
    memberAt stream (fuel + 1) .empty (longNameHeader name ++ rest) = .error .unexpectedEnd := by
  rw [length_longNameEntry, ← Nat.add_assoc] at hend
  have hheader := describes_longNameHeader (le_maxOffset_of_padded hend)
  have hadd : Extensions.empty.add? ⟨⟨longNameHeader name⟩, (terminated name).length, rest⟩ =
      .ok (some ⟨some (rest.take (terminated name).length), none, none⟩) := by
    simp only [Extensions.add?, isExtension_eq hheader]
    rfl
  rw [memberAt, entryAt_block hheader rfl hend]
  simp only [hadd, skip_cut hstream hshort]

/-- A front that was cut off announces nothing, wherever the cut is. -/
theorem Front.memberAt_take_error (h : Front name size front) (fuel : Nat)
    (hstream : stream.broken = false) {count : Nat} (hpos : 0 < count) (hlt : count < front.length)
    (hend : stream.data.length - count + front.length ≤ maxOffset) :
    ∃ err, memberAt stream (fuel + 2) .empty (front.take count) = .error err := by
  have hcount : (front.take count).length = count := List.length_take_of_le hlt.le
  have hne : front.take count ≠ [] := by
    intro hnil
    rw [hnil, List.length_nil] at hcount
    omega
  -- A cut in the first header is met before anything is read.
  have hincomplete : count < blockSize →
      ∃ err, memberAt stream (fuel + 2) .empty (front.take count) = .error err := by
    intro hshort
    refine ⟨.incompleteBlock, ?_⟩
    rw [memberAt, entryAt_incomplete hstream hne (by omega)]
  cases h with
  | plain room noNul =>
    have hlength : (fileHeader name size).length = blockSize :=
      length_block room (Bytes.length_zeros 16)
    exact hincomplete (by omega)
  | @long cut room =>
    have hlength : (fileHeader cut size).length = blockSize :=
      length_block room (Bytes.length_zeros 16)
    have hheader : (longNameHeader name).length = blockSize :=
      length_block (by decide) (by decide)
    have hentry := length_longNameEntry name
    rw [List.length_append] at hlt hend
    rcases Nat.lt_or_ge count blockSize with hshort | hblock
    · exact hincomplete hshort
    rcases Nat.lt_or_ge count (longNameEntry name).length with hinside | hbehind
    · -- The cut is in the long name or in its padding.
      have htake : (longNameEntry name ++ fileHeader cut size).take count = longNameHeader name ++
          (terminated name ++ padding (terminated name).length).take (count - blockSize) := by
        rw [List.take_append_of_le_length hinside.le, longNameEntry_eq, List.take_append, hheader,
          List.take_of_length_le (by omega)]
      rw [htake] at hcount ⊢
      rw [List.length_append] at hcount
      refine ⟨_, memberAt_longNameEntry_cut hstream (by omega) ?_⟩
      rw [List.length_append, hcount]
      omega
    · -- The cut is right behind the long name, or in the header that follows.
      have htake : (longNameEntry name ++ fileHeader cut size).take count = longNameEntry name ++
          (fileHeader cut size).take (count - (longNameEntry name).length) := by
        rw [List.take_append, List.take_of_length_le hbehind]
      rw [htake] at hcount ⊢
      rw [memberAt_longNameEntry (by rw [hcount]; omega)]
      rw [List.length_append] at hcount
      exact memberAt_pending_cut hstream (by omega)

end Fronts

/-! ## Fragments -/

/-- A fragment that holds one file: a front that announces the name of its path and the length of
its contents, the contents, and their padding. -/
inductive IsFragment : (file : String × Bytes) → (fragment : Bytes) → Prop
  | intro {name path : String} {front data : Bytes}
      (announced : Front (Bytes.ofString name) data.length front)
      (placed : placeOf name = .ok path) :
      IsFragment (path, data) (front ++ (data ++ padding data.length))

section Fragments

variable {stream : ByteStream} {fuel : Nat} {file : String × Bytes} {fragment rest : Bytes}

theorem Front.length_pos {name front : Bytes} {size : Nat} (h : Front name size front) :
    0 < front.length := by
  cases h with
  | plain room noNul => rw [fileHeader, length_block room (Bytes.length_zeros 16)]; decide
  | long room =>
    rw [List.length_append, fileHeader, length_block room (Bytes.length_zeros 16)]
    exact Nat.add_pos_right _ (by decide)

/-- Two steps are enough for a front, and there is fuel for as many as there are octets. -/
theorem Front.exists_steps {name front : Bytes} {size : Nat} (h : Front name size front)
    (rest : Bytes) : ∃ steps, (front ++ rest).length + 1 = steps + 2 := by
  refine ⟨(front ++ rest).length - 1, ?_⟩
  have := h.length_pos
  rw [List.length_append]
  omega

theorem IsFragment.length_pos (h : IsFragment file fragment) : 0 < fragment.length := by
  cases h with
  | intro announced placed =>
    rw [List.length_append]
    exact Nat.add_pos_left announced.length_pos _

theorem fileOf_isFile {member : Member} {name path : String} {size : Nat}
    (hfile : member.IsFile (Bytes.ofString name) size rest) (hplace : placeOf name = .ok path) :
    fileOf stream member =
      if size ≤ rest.length then .ok (path, rest.take size)
      else if stream.broken then .error (.io .brokenStream)
      else .error (.shortEntry name size rest.length) := by
  rcases hfile with ⟨hname, rfl, rfl, -⟩
  unfold fileOf
  simp only [hname, Utf8.decodeLossy_ofString, hplace]

theorem afterMember_isFile {member : Member} {name : Bytes} {size : Nat}
    (hfile : member.IsFile name size rest) :
    afterMember stream member = Entry.skip ⟨member.entry.header, size, rest⟩ stream := by
  have hkind : member.entry.header.kind ≠ 'S'.toUInt8 := by
    rw [hfile.kind]
    decide
  rw [afterMember, if_neg hkind, ← hfile.size, ← hfile.rest]

theorem isRegular_isFile {member : Member} {name : Bytes} {size : Nat}
    (hfile : member.IsFile name size rest) : member.entry.header.isRegular = true := by
  simp [Header.isRegular, hfile.kind]

/-- Reading steps over a fragment and yields its file. -/
theorem filesFrom_fragment (h : IsFragment file fragment)
    (hend : stream.data.length - (fragment ++ rest).length + fragment.length ≤ maxOffset) :
    filesFrom stream (fuel + 1) (fragment ++ rest) =
      (filesFrom stream fuel rest).map (file :: ·) := by
  have hpos := h.length_pos
  cases h with
  | @intro name path front data announced placed =>
    rw [List.append_assoc] at hend ⊢
    obtain ⟨steps, hsteps⟩ := announced.exists_steps (data ++ padding data.length ++ rest)
    have hlength := length_append_padding data
    obtain ⟨member, hmember, hfile⟩ := announced.exists_member stream steps (by
      rw [Nat.add_assoc, ← hlength, ← List.length_append]
      exact hend)
    -- The contents are there as a whole, so they are the file.
    have hheld : data.length ≤ (data ++ padding data.length ++ rest).length := by
      rw [List.append_assoc, List.length_append]
      exact Nat.le_add_right _ _
    have htake : (data ++ padding data.length ++ rest).take data.length = data := by
      rw [List.append_assoc, List.take_left]
    rw [filesFrom, hsteps, hmember]
    simp only [isRegular_isFile hfile, if_true, fileOf_isFile hfile placed, hheld, htake,
      Except.map, afterMember_isFile hfile, skip_append]
    cases filesFrom stream fuel rest <;> rfl

/-- Inside a fragment that was cut off, reading meets an error. -/
theorem filesFrom_cut (h : IsFragment file fragment) (hstream : stream.broken = false)
    {count : Nat} (hpos : 0 < count) (hlt : count < fragment.length)
    (hend : stream.data.length - count + fragment.length ≤ maxOffset) :
    ∃ err, filesFrom stream (fuel + 1) (fragment.take count) = .error err := by
  cases h with
  | @intro name path front data announced placed =>
    have hcount : ((front ++ (data ++ padding data.length)).take count).length = count :=
      List.length_take_of_le hlt.le
    obtain ⟨steps, hsteps⟩ : ∃ steps, count + 1 = steps + 2 := ⟨count - 1, by omega⟩
    have hlength := length_append_padding data
    rw [List.length_append] at hlt hend
    rw [filesFrom, hcount, hsteps]
    rcases Nat.lt_or_ge count front.length with hinside | hbehind
    · -- The cut is in the front.
      rw [List.take_append_of_le_length hinside.le]
      rcases announced.memberAt_take_error steps hstream hpos hinside (by omega) with ⟨err, herr⟩
      exact ⟨.io err, by rw [herr]⟩
    · -- The front is whole, so a member is announced, but not all of it is there.
      have htake : (front ++ (data ++ padding data.length)).take count =
          front ++ (data ++ padding data.length).take (count - front.length) := by
        rw [List.take_append, List.take_of_length_le hbehind]
      rw [htake] at hcount ⊢
      obtain ⟨member, hmember, hfile⟩ := announced.exists_member stream steps (by
        rw [hcount]
        omega)
      rw [List.length_append] at hcount
      rw [hmember]
      simp only [isRegular_isFile hfile, if_true, fileOf_isFile hfile placed]
      by_cases hheld : data.length ≤
          ((data ++ padding data.length).take (count - front.length)).length
      · -- The contents are whole, but their padding is not.
        simp only [hheld, if_true, Except.map, afterMember_isFile hfile]
        rw [skip_cut hstream (by omega)]
        exact ⟨_, rfl⟩
      · -- The file is shorter than its header says.
        simp only [hheld, if_false, hstream, Bool.false_eq_true, Except.map]
        exact ⟨_, rfl⟩

/-- Reading steps over a whole run of fragments and yields their files in order. -/
theorem filesFrom_append {files : List (String × Bytes)} {fragments : List Bytes}
    (h : List.Forall₂ IsFragment files fragments)
    (hend : stream.data.length - (fragments.flatten ++ rest).length + fragments.flatten.length ≤
      maxOffset) (hheld : (fragments.flatten ++ rest).length ≤ stream.data.length) :
    filesFrom stream (files.length + fuel) (fragments.flatten ++ rest) =
      (filesFrom stream fuel rest).map (files ++ ·) := by
  induction h with
  | nil =>
    simp only [List.length_nil, Nat.zero_add, List.flatten_nil, List.nil_append]
    cases filesFrom stream fuel rest <;> rfl
  | @cons file fragment files fragments hfile hfiles ih =>
    simp only [List.flatten_cons, List.append_assoc, List.length_append] at hend hheld ih ⊢
    have hfuel : (file :: files).length + fuel = files.length + fuel + 1 := by
      rw [List.length_cons]
      omega
    -- One step is for the first fragment, the others are read from where it ends.
    rw [hfuel, filesFrom_fragment hfile (by simp only [List.length_append]; omega),
      ih (by omega) (by omega)]
    cases filesFrom stream fuel rest <;> rfl

theorem filesFrom_nil (hstream : stream.broken = false) :
    filesFrom stream (fuel + 1) [] = .ok [] := by
  rw [filesFrom, memberAt, entryAt_nil hstream]
  rfl

theorem filesFrom_zeros : filesFrom stream (fuel + 1) (Bytes.zeros blockSize ++ rest) = .ok [] := by
  rw [filesFrom, memberAt, entryAt_zeros]
  rfl

end Fragments

end Tar
end BuildTree
