import BuildTree.Proofs.Tar.Field
import BuildTree.Tar.Pack
import BuildTree.Tar.Unpack

/-!
# Header blocks — what is read from a header that was written

A written header is one block.  Its checksum is right, it has GNU magic, and size, kind and name are
read back as they were put in.  `Header.Describes` gathers what the reader of a stream asks a header
for, so that the proofs about streams never look inside a block.
-/

namespace BuildTree
namespace Tar

/-- What the reader of a stream finds in a header that was written for a size and a kind. -/
structure Header.Describes (header : Header) (size : Nat) (kind : UInt8) : Prop where
  length : header.block.length = blockSize
  nonzero : header.block.all (· == 0) = false
  checksum : header.checksumMatches = some true
  size : header.size? = some size
  kind : header.kind = kind
  gnu : header.isGnu = true
  notUstar : header.isUstar = false

section Block

variable {name owner : Bytes} {size : Nat} {kind : UInt8}

theorem length_field {width : Nat} {content : Bytes} (h : content.length ≤ width) :
    (field width content).length = width := by
  simp only [field, List.length_append, Bytes.length_zeros]
  omega

theorem length_before (size : Nat) (kind : UInt8) (hname : name.length ≤ nameWidth)
    (howner : owner.length = 16) :
    (headerParts name owner size kind).before.length = 148 := by
  have hfield : (field nameWidth name).length = 100 := length_field hname
  simp [headerParts, hfield, length_octal, length_numeric, howner]

theorem length_after : (headerParts name owner size kind).after.length = 356 := by
  have hkind : [kind].length ≤ 101 := by simp
  have hmagic : (Bytes.ofString "ustar  ").length ≤ 255 := by decide
  simp [headerParts, length_field hkind, length_field hmagic]

/-- The octets of a block without its checksum, which always fit seven octal digits. -/
theorem sum_parts_lt (size : Nat) (kind : UInt8) (hname : name.length ≤ nameWidth)
    (howner : owner.length = 16) :
    Bytes.sum ((headerParts name owner size kind).before ++
      (headerParts name owner size kind).after) + 8 * 32 < 8 ^ 7 := by
  -- A block has 504 octets beside the checksum, each of at most 255.
  have hsum := Bytes.sum_le ((headerParts name owner size kind).before ++
      (headerParts name owner size kind).after)
  rw [List.length_append, length_before _ _ hname howner, length_after] at hsum
  omega

theorem length_block (hname : name.length ≤ nameWidth) (howner : owner.length = 16) :
    (headerParts name owner size kind).block.length = blockSize := by
  simp [HeaderParts.block, length_before _ _ hname howner, length_after, length_octal, blockSize]

theorem checksumMatches_block (hname : name.length ≤ nameWidth) (howner : owner.length = 16) :
    Header.checksumMatches ⟨(headerParts name owner size kind).block⟩ = some true := by
  have hbefore := length_before size kind hname howner
  have hlt := sum_parts_lt size kind hname howner
  generalize headerParts name owner size kind = parts at *
  have hfield : parts.block.slice 148 8 =
      octal 8 (Bytes.sum (parts.before ++ parts.after) + 8 * 32) := by
    rw [HeaderParts.block, List.append_assoc]
    exact Bytes.slice_append hbefore (length_octal _ (by decide))
  -- What the checksum covers are the two parts around it.
  have hcovered : parts.block.take 148 ++ parts.block.drop 156 = parts.before ++ parts.after := by
    have htake : parts.block.take 148 = parts.before := by
      rw [HeaderParts.block, List.append_assoc]
      exact List.take_left' hbefore
    have hdrop : parts.block.drop 156 = parts.after := by
      rw [HeaderParts.block]
      exact List.drop_left' (by simp [hbefore, length_octal])
    rw [htake, hdrop]
  have hmax : Bytes.sum (parts.before ++ parts.after) + 8 * 32 ≤ maxOffset :=
    le_trans (le_of_lt hlt) (by decide)
  rw [Header.checksumMatches, hfield, octal?_octal (by decide) hlt hmax, checksum, hcovered]
  simp

theorem size?_block (hname : name.length ≤ nameWidth) (howner : owner.length = 16)
    (hsize : size ≤ maxOffset) :
    Header.size? ⟨(headerParts name owner size kind).block⟩ = some size := by
  have hfield : (headerParts name owner size kind).block.slice 124 12 = numeric 12 size := by
    have hname : (field nameWidth name).length = 100 := length_field hname
    have hfront : (field nameWidth name ++ octal 8 0o644 ++ owner).length = 124 := by
      simp [hname, length_octal, howner]
    -- The fields in front of the size are put together again to cut them off at once.
    simp only [HeaderParts.block, headerParts, List.append_assoc]
    rw [← List.append_assoc (octal 8 0o644), ← List.append_assoc (field nameWidth name),
      ← List.append_assoc (field nameWidth name)]
    exact Bytes.slice_append hfront (length_numeric _ (by decide))
  rw [Header.size?, hfield, number?_numeric (by decide) hsize]

theorem kind_block (hname : name.length ≤ nameWidth) (howner : owner.length = 16) :
    Header.kind ⟨(headerParts name owner size kind).block⟩ = kind := by
  have hlength : ((headerParts name owner size kind).before ++ octal 8
      (Bytes.sum ((headerParts name owner size kind).before ++
        (headerParts name owner size kind).after) + 8 * 32)).length = 156 := by
    simp [length_before _ _ hname howner, length_octal]
  rw [Header.kind, HeaderParts.block, List.getElem?_append_right (le_of_eq hlength), hlength]
  simp [headerParts, field]

theorem magic_field : field 255 (Bytes.ofString "ustar  ") = gnuMagic ++ Bytes.zeros 247 := by
  have hlength : (Bytes.ofString "ustar  ").length = 7 := by decide
  rw [field, hlength, gnuMagic, List.append_assoc]
  rfl

theorem magic_block (hname : name.length ≤ nameWidth) (howner : owner.length = 16) :
    (headerParts name owner size kind).block.slice 257 8 = gnuMagic := by
  have hbefore := length_before size kind hname howner
  have hafter : (headerParts name owner size kind).after =
      field 101 [kind] ++ (gnuMagic ++ Bytes.zeros 247) := by
    rw [← magic_field]
    rfl
  rw [HeaderParts.block]
  generalize Bytes.sum _ + 8 * 32 = total
  have hfront : ((headerParts name owner size kind).before ++ octal 8 total ++
      field 101 [kind]).length = 257 := by
    simp [hbefore, length_octal, field]
  rw [hafter, ← List.append_assoc]
  exact Bytes.slice_append hfront (by decide)

/-- A written header is read as it was written, whatever its name is. -/
theorem describes_block (hname : name.length ≤ nameWidth) (howner : owner.length = 16)
    (hsize : size ≤ maxOffset) :
    Header.Describes ⟨(headerParts name owner size kind).block⟩ size kind where
  length := length_block hname howner
  nonzero := by
    -- The magic octets are not zero.
    have hmagic : (117 : UInt8) ∈ (headerParts name owner size kind).block.slice 257 8 := by
      rw [magic_block hname howner]
      decide
    rw [List.all_eq_false]
    exact ⟨117, Bytes.mem_of_mem_slice hmagic, by decide⟩
  checksum := checksumMatches_block hname howner
  size := size?_block hname howner hsize
  kind := kind_block hname howner
  gnu := by
    rw [Header.isGnu, magic_block hname howner]
    decide
  notUstar := by
    rw [Header.isUstar, magic_block hname howner]
    decide

/-- A name without NULs is read back from a header that has room for it. -/
theorem name_block (hname : name.length ≤ nameWidth) (howner : owner.length = 16)
    (hnul : 0 ∉ name) : Header.name ⟨(headerParts name owner size kind).block⟩ = name := by
  have hfield : (headerParts name owner size kind).block.slice 0 100 = field nameWidth name := by
    simp only [HeaderParts.block, headerParts, List.append_assoc]
    exact Bytes.slice_append (List.length_nil) (length_field hname)
  have huntil : Bytes.untilNul (field nameWidth name) = name := by
    have hnonzero : ∀ b ∈ name, (b != 0) = true := by
      intro b hb
      have : b ≠ 0 := fun heq => hnul (heq ▸ hb)
      simpa using this
    -- A name that fills its field has no NUL behind it.
    rw [Bytes.untilNul, field, List.takeWhile_append_of_pos hnonzero]
    cases hroom : nameWidth - name.length <;> simp [Bytes.zeros, List.replicate_succ]
  have hustar : Header.isUstar ⟨(headerParts name owner size kind).block⟩ = false := by
    rw [Header.isUstar, magic_block hname howner]
    decide
  simp [Header.name, hustar, hfield, huntil]

end Block

end Tar
end BuildTree
