import BuildTree.Proofs.Text.Utf8
import BuildTree.Tar.Field

/-!
# Header fields — numbers come back from their fields

A number that fits is read back from the octal field it was written in, and one that does not fit
from the same field with its top bit set.  Together: whatever offset is put into a numeric field, the
field holds that number.
-/

namespace BuildTree
namespace Tar

/-! ## Octal digits -/

/-- An octet that is an octal digit. -/
def IsOctalDigit (b : UInt8) : Prop :=
  48 ≤ b.toNat ∧ b.toNat < 56

theorem isOctalDigit_ofNat (n : Nat) : IsOctalDigit (UInt8.ofNat (48 + n % 8)) := by
  rw [IsOctalDigit, Utf8.toNat_ofNat_of_lt (by omega)]
  omega

theorem isOctalDigit_of_mem_digits {width n : Nat} {b : UInt8} (h : b ∈ octal.digits width n) :
    IsOctalDigit b := by
  induction width generalizing n with
  | zero => simp [octal.digits] at h
  | succ width ih =>
    simp only [octal.digits, List.mem_append, List.mem_singleton] at h
    rcases h with h | rfl
    · exact ih h
    · exact isOctalDigit_ofNat n

@[simp] theorem length_digits (width n : Nat) : (octal.digits width n).length = width := by
  induction width generalizing n with
  | zero => rfl
  | succ width ih => simp [octal.digits, ih]

theorem digits_ne_nil {width n : Nat} (h : 0 < width) : octal.digits width n ≠ [] := by
  intro hnil
  have hlength := length_digits width n
  rw [hnil, List.length_nil] at hlength
  omega

theorem length_octal {width : Nat} (n : Nat) (h : 0 < width) : (octal width n).length = width := by
  simp only [octal, List.length_append, length_digits, List.length_singleton]
  omega

/-- The value that a reader of digits accumulates. -/
theorem foldl_digits (width n start : Nat) :
    (octal.digits width n).foldl (fun acc b => 8 * acc + (b.toNat - 48)) start =
      start * 8 ^ width + n % 8 ^ width := by
  induction width generalizing n with
  | zero => simp [octal.digits, Nat.mod_one]
  | succ width ih =>
    have hdigit : (UInt8.ofNat (48 + n % 8)).toNat - 48 = n % 8 := by
      rw [Utf8.toNat_ofNat_of_lt (by omega)]
      omega
    have hsplit : n % 8 ^ (width + 1) = n % 8 + 8 * (n / 8 % 8 ^ width) := by
      rw [Nat.pow_succ', Nat.mod_mul]
    rw [octal.digits, List.foldl_append, ih, List.foldl_cons, List.foldl_nil, hdigit, hsplit]
    ring

/-- The character of an octal digit counts as what the digit counts. -/
theorem octalDigits?_map {bs : Bytes} (h : ∀ b ∈ bs, IsOctalDigit b) (hne : bs ≠ []) :
    octalDigits? (bs.map fun b => Char.ofNat b.toNat) =
      some (bs.foldl (fun acc b => 8 * acc + (b.toNat - 48)) 0) := by
  have hfold : ∀ (bs : Bytes) (start : Nat), (∀ b ∈ bs, IsOctalDigit b) →
      (bs.map fun b => Char.ofNat b.toNat).foldl (fun acc c => acc.bind fun n =>
        if '0' ≤ c ∧ c ≤ '7' then some (8 * n + (c.toNat - 48)) else none) (some start) =
      some (bs.foldl (fun acc b => 8 * acc + (b.toNat - 48)) start) := by
    intro bs
    induction bs with
    | nil => intro start _; rfl
    | cons b bs ih =>
      intro start h
      rcases h b (by simp) with ⟨hlow, hhigh⟩
      have hnat : (Char.ofNat b.toNat).toNat = b.toNat := Utf8.toNat_charOfNat_of_lt (by omega)
      have hrange : '0' ≤ Char.ofNat b.toNat ∧ Char.ofNat b.toNat ≤ '7' := by
        constructor
        · exact show 48 ≤ (Char.ofNat b.toNat).toNat by omega
        · exact show (Char.ofNat b.toNat).toNat ≤ 55 by omega
      rw [List.map_cons, List.foldl_cons, List.foldl_cons, Option.bind_some, if_pos hrange, hnat]
      exact ih _ fun b hb => h b (List.mem_cons_of_mem _ hb)
  rcases List.exists_cons_of_ne_nil hne with ⟨b, rest, rfl⟩
  exact hfold (b :: rest) 0 h

/-! ## Fields -/

theorem trim_of_not_blank {text : List Char} (h : ∀ c ∈ text, Text.isBlank c = false) :
    Text.trim text = text := by
  have hdrop : ∀ cs : List Char, (∀ c ∈ cs, Text.isBlank c = false) →
      cs.dropWhile Text.isBlank = cs := by
    intro cs hcs
    cases cs with
    | nil => rfl
    | cons c cs => simp [hcs c (by simp)]
  rw [Text.trim, hdrop text h, hdrop text.reverse (by simpa using h), List.reverse_reverse]

/-- A number that fits is read back from its octal field. -/
theorem octal?_octal {width n : Nat} (hwidth : 1 < width) (hfit : n < 8 ^ (width - 1))
    (hmax : n ≤ maxOffset) : octal? (octal width n) = some n := by
  have hdigit : ∀ b ∈ octal.digits (width - 1) n, IsOctalDigit b :=
    fun b hb => isOctalDigit_of_mem_digits hb
  have hne : octal.digits (width - 1) n ≠ [] := digits_ne_nil (by omega)
  -- No digit is the NUL that ends the field, a blank or a sign.
  have huntil : Bytes.untilNul (octal width n) = octal.digits (width - 1) n := by
    have hnonzero : ∀ b ∈ octal.digits (width - 1) n, (b != 0) = true := by
      intro b hb
      have hlow : 48 ≤ b.toNat := (hdigit b hb).1
      have : b ≠ 0 := by
        rintro rfl
        simp at hlow
      simpa using this
    rw [Bytes.untilNul, octal, List.takeWhile_append_of_pos hnonzero]
    simp
  have htext : Utf8.decode? (octal.digits (width - 1) n) =
      some (String.ofList ((octal.digits (width - 1) n).map fun b => Char.ofNat b.toNat)) :=
    Utf8.decode?_of_ascii fun b hb => by have := (hdigit b hb).2; omega
  have hsmall : ∀ k : Fin 8, Text.isBlank (Char.ofNat (48 + k)) = false ∧
      Char.ofNat (48 + k) ≠ '+' := by decide
  have hchar : ∀ c ∈ (octal.digits (width - 1) n).map fun b => Char.ofNat b.toNat,
      Text.isBlank c = false ∧ c ≠ '+' := by
    intro c hc
    rcases List.mem_map.1 hc with ⟨b, hb, rfl⟩
    rcases hdigit b hb with ⟨hlow, hhigh⟩
    have := hsmall ⟨b.toNat - 48, by omega⟩
    rwa [Fin.val_mk, Nat.add_sub_cancel' hlow] at this
  have hvalue : octalDigits? ((octal.digits (width - 1) n).map fun b => Char.ofNat b.toNat) =
      some n := by
    rw [octalDigits?_map hdigit hne, foldl_digits, Nat.mod_eq_of_lt hfit]
    simp
  rw [octal?, huntil, htext]
  simp only [String.toList_ofList, trim_of_not_blank fun c hc => (hchar c hc).1]
  generalize (octal.digits (width - 1) n).map (fun b => Char.ofNat b.toNat) = text at *
  split
  · rename_i heq
    exact absurd rfl (hchar '+' (by simp)).2
  · simp [hvalue, hmax]

theorem toNatBE_reverse_littleEndian (width n : Nat) :
    Bytes.toNatBE (Bytes.littleEndian width n).reverse = n % 256 ^ width := by
  rw [Bytes.toNatBE, List.foldl_reverse]
  induction width generalizing n with
  | zero => simp [Bytes.littleEndian, Nat.mod_one]
  | succ width ih =>
    have hoctet : (UInt8.ofNat (n % 256)).toNat = n % 256 :=
      Utf8.toNat_ofNat_of_lt (Nat.mod_lt _ (by omega))
    rw [Bytes.littleEndian, List.foldr_cons, ih, hoctet, Nat.pow_succ', Nat.mod_mul]
    ring

theorem length_numeric {width : Nat} (n : Nat) (h : 9 ≤ width) :
    (numeric width n).length = width := by
  unfold numeric
  split
  · exact length_octal n (by omega)
  · simp
    omega

/-- Every offset is read back from a numeric field. -/
theorem number?_numeric {width n : Nat} (hwidth : 9 ≤ width) (hmax : n ≤ maxOffset) :
    number? (numeric width n) = some n := by
  by_cases hfit : n < Nat.pow 8 (width - 1)
  · rw [numeric, if_pos hfit]
    -- The first octet is a digit, so the top bit is not set.
    obtain ⟨b, rest, hfield⟩ : ∃ b rest, octal width n = b :: rest :=
      List.exists_cons_of_ne_nil (by simp [octal])
    have hdigit : IsOctalDigit b := by
      have hdigits : octal.digits (width - 1) n ≠ [] := digits_ne_nil (by omega)
      rcases List.exists_cons_of_ne_nil hdigits with ⟨d, ds, hds⟩
      have hhead : d = b := by
        rw [octal, hds] at hfield
        exact (List.cons.inj hfield).1
      exact isOctalDigit_of_mem_digits (hhead ▸ hds ▸ List.mem_cons_self)
    have hsmall : ∀ k : Fin 8, UInt8.ofNat (48 + k) &&& 0x80 = 0 := by decide
    have htop : b &&& 0x80 = 0 := by
      have := hsmall ⟨b.toNat - 48, by have := hdigit.2; omega⟩
      rwa [Fin.val_mk, Nat.add_sub_cancel' hdigit.1, UInt8.ofNat_toNat] at this
    have hread := octal?_octal (by omega : 1 < width) hfit hmax
    rw [hfield] at hread ⊢
    simpa [number?, htop] using hread
  · -- The number stands in the last eight octets, which hold every offset.
    rw [numeric, if_neg hfit]
    have htop : (0x80 : UInt8) &&& 0x80 ≠ 0 := by decide
    have hdrop : ((0x80 : UInt8) :: (Bytes.zeros (width - 9) ++
        (Bytes.littleEndian 8 n).reverse)).drop (width - 8) = (Bytes.littleEndian 8 n).reverse := by
      have hsucc : width - 8 = (width - 9) + 1 := by omega
      rw [hsucc, List.drop_succ_cons, List.drop_left' (by simp)]
    have hlength : ((0x80 : UInt8) :: (Bytes.zeros (width - 9) ++
        (Bytes.littleEndian 8 n).reverse)).length - 8 = width - 8 := by
      simp
      omega
    have hlt : n < 256 ^ 8 := lt_of_le_of_lt hmax (by decide)
    rw [number?, if_pos htop, hlength, hdrop, toNatBE_reverse_littleEndian, Nat.mod_eq_of_lt hlt]

end Tar
end BuildTree
