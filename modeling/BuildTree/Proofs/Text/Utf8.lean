import BuildTree.Text.Utf8
import Mathlib

/-!
# UTF-8 — texts come back from their octets

The machine that decodes UTF-8 reads the octets of a character as that character and is between
characters again, whatever follows.  Hence strict and lossy decoding both give a text back from its
octets.  The first octet of a character is never one that continues a character.
-/

namespace BuildTree
namespace Utf8

/-! ## Octets -/

theorem toNat_ofNat_of_lt {n : Nat} (h : n < 256) : (UInt8.ofNat n).toNat = n := by
  simpa using h

theorem toNat_charOfNat_of_lt {n : Nat} (h : n < 0x80) : (Char.ofNat n).toNat = n := by
  have hvalid : n.isValidChar := Or.inl (by omega)
  rw [Char.ofNat, dif_pos hvalid]
  exact Char.toNat_ofNatAux hvalid

/-- The octets of a character, by the number of octets it takes. -/
theorem utf8EncodeChar_cases (c : Char) :
    (c.toNat < 0x80 ∧ String.utf8EncodeChar c = [UInt8.ofNat c.toNat]) ∨
    (0x80 ≤ c.toNat ∧ c.toNat < 0x800 ∧ String.utf8EncodeChar c =
      [UInt8.ofNat (c.toNat / 64 + 0xC0), UInt8.ofNat (c.toNat % 64 + 0x80)]) ∨
    (0x800 ≤ c.toNat ∧ c.toNat < 0x10000 ∧ String.utf8EncodeChar c =
      [UInt8.ofNat (c.toNat / 4096 + 0xE0), UInt8.ofNat (c.toNat / 64 % 64 + 0x80),
        UInt8.ofNat (c.toNat % 64 + 0x80)]) ∨
    (0x10000 ≤ c.toNat ∧ c.toNat < 0x110000 ∧ String.utf8EncodeChar c =
      [UInt8.ofNat (c.toNat / 262144 + 0xF0), UInt8.ofNat (c.toNat / 4096 % 64 + 0x80),
        UInt8.ofNat (c.toNat / 64 % 64 + 0x80), UInt8.ofNat (c.toNat % 64 + 0x80)]) := by
  have hval : c.val.toNat = c.toNat := rfl
  have hmax : c.toNat < 0x110000 := by
    have := c.valid
    simp only [UInt32.isValidChar, Nat.isValidChar] at this
    omega
  fun_cases String.utf8EncodeChar c with
  | case1 v h => exact Or.inl ⟨by omega, rfl⟩
  | case2 v h1 h2 =>
    refine Or.inr (Or.inl ⟨by omega, by omega, ?_⟩)
    rw [Nat.mod_eq_of_lt (by omega : v / 64 < 0x20)]
    rfl
  | case3 v h1 h2 h3 =>
    refine Or.inr (Or.inr (Or.inl ⟨by omega, by omega, ?_⟩))
    rw [Nat.mod_eq_of_lt (by omega : v / 4096 < 0x10)]
    rfl
  | case4 v h1 h2 h3 =>
    refine Or.inr (Or.inr (Or.inr ⟨by omega, hmax, ?_⟩))
    rw [Nat.mod_eq_of_lt (by omega : v / 262144 < 0x08)]
    rfl

/-! ## The machine on one character -/

/-- An octet read between characters, by its value. -/
theorem first_ofNat {n : Nat} (h : n < 256) :
    first (UInt8.ofNat n) =
      if n < 0x80 then ([.char (Char.ofNat n)], .start)
      else if n < 0xC2 then ([.malformed], .start)
      else if n < 0xE0 then ([], .inside 0 (n - 0xC0) 0x80 0xBF)
      else if n < 0xF0 then
        ([], .inside 1 (n - 0xE0) (if n = 0xE0 then 0xA0 else 0x80)
          (if n = 0xED then 0x9F else 0xBF))
      else if n < 0xF5 then
        ([], .inside 2 (n - 0xF0) (if n = 0xF0 then 0x90 else 0x80)
          (if n = 0xF4 then 0x8F else 0xBF))
      else ([.malformed], .start) := by
  simp only [first, UInt8.lt_iff_toNat_lt, ← UInt8.toNat_inj, toNat_ofNat_of_lt h,
    UInt8.reduceToNat]

theorem first_single {n : Nat} (h : n < 0x80) :
    first (UInt8.ofNat n) = ([.char (Char.ofNat n)], .start) := by
  rw [first_ofNat (by omega), if_pos h]

theorem first_pair {n : Nat} (hlow : 0xC2 ≤ n) (h : n < 0xE0) :
    first (UInt8.ofNat n) = ([], .inside 0 (n - 0xC0) 0x80 0xBF) := by
  rw [first_ofNat (by omega), if_neg (by omega), if_neg (by omega), if_pos h]

theorem first_triple {n : Nat} (hlow : 0xE0 ≤ n) (h : n < 0xF0) :
    first (UInt8.ofNat n) = ([], .inside 1 (n - 0xE0) (if n = 0xE0 then 0xA0 else 0x80)
      (if n = 0xED then 0x9F else 0xBF)) := by
  rw [first_ofNat (by omega), if_neg (by omega), if_neg (by omega), if_neg (by omega), if_pos h]

theorem first_quadruple {n : Nat} (hlow : 0xF0 ≤ n) (h : n < 0xF5) :
    first (UInt8.ofNat n) = ([], .inside 2 (n - 0xF0) (if n = 0xF0 then 0x90 else 0x80)
      (if n = 0xF4 then 0x8F else 0xBF)) := by
  rw [first_ofNat (by omega), if_neg (by omega), if_neg (by omega), if_neg (by omega),
    if_neg (by omega), if_pos h]

/-- An octet in range with more octets owed behind it. -/
theorem step_inside_succ {owed code n : Nat} {low high : UInt8} (hlow : low.toNat ≤ n + 0x80)
    (hhigh : n + 0x80 ≤ high.toNat) :
    step (.inside (owed + 1) code low high) (UInt8.ofNat (n + 0x80)) =
      ([], .inside owed (code * 64 + n) 0x80 0xBF) := by
  have hbyte : n + 0x80 < 256 := lt_of_le_of_lt hhigh high.toNat_lt
  have hrange : low ≤ UInt8.ofNat (n + 0x80) ∧ UInt8.ofNat (n + 0x80) ≤ high := by
    simp only [UInt8.le_iff_toNat_le, toNat_ofNat_of_lt hbyte]
    exact ⟨hlow, hhigh⟩
  simp only [step, hrange, and_self, if_true, toNat_ofNat_of_lt hbyte, Nat.add_sub_cancel]

theorem step_inside_zero {code n : Nat} {low high : UInt8} (hlow : low.toNat ≤ n + 0x80)
    (hhigh : n + 0x80 ≤ high.toNat) :
    step (.inside 0 code low high) (UInt8.ofNat (n + 0x80)) =
      ([.char (Char.ofNat (code * 64 + n))], .start) := by
  have hbyte : n + 0x80 < 256 := lt_of_le_of_lt hhigh high.toNat_lt
  have hrange : low ≤ UInt8.ofNat (n + 0x80) ∧ UInt8.ofNat (n + 0x80) ≤ high := by
    simp only [UInt8.le_iff_toNat_le, toNat_ofNat_of_lt hbyte]
    exact ⟨hlow, hhigh⟩
  simp only [step, hrange, and_self, if_true, toNat_ofNat_of_lt hbyte, Nat.add_sub_cancel]

theorem itemsFrom_cons (state : State) (b : UInt8) (bs : Bytes) :
    itemsFrom state (b :: bs) = (step state b).1 ++ itemsFrom (step state b).2 bs := by
  cases state <;> rfl

/-- The octets of a character are read as that character. -/
theorem itemsFrom_utf8EncodeChar (c : Char) (bs : Bytes) :
    itemsFrom .start (String.utf8EncodeChar c ++ bs) = .char c :: itemsFrom .start bs := by
  have hchar : ∀ {n : Nat}, n = c.toNat → Char.ofNat n = c := by
    rintro _ rfl
    exact Char.ofNat_toNat c
  rcases utf8EncodeChar_cases c with ⟨h, henc⟩ | ⟨h1, h2, henc⟩ | ⟨h1, h2, henc⟩ | ⟨h1, h2, henc⟩
  · simp only [henc, List.singleton_append, itemsFrom_cons, step, first_single h,
      hchar rfl]
  · -- Two octets: the first cannot be one of the two that would spell a character of one octet.
    have hcode : (c.toNat / 64 + 0xC0 - 0xC0) * 64 + c.toNat % 64 = c.toNat := by omega
    simp only [henc, List.cons_append, List.nil_append, itemsFrom_cons]
    simp only [step.eq_1, first_pair (by omega : 0xC2 ≤ c.toNat / 64 + 0xC0) (by omega)]
    rw [step_inside_zero (show _ ≤ _ by simp) (show _ ≤ 0xBF by omega), hchar hcode]
    rfl
  · have hcode : ((c.toNat / 4096 + 0xE0 - 0xE0) * 64 + c.toNat / 64 % 64) * 64 + c.toNat % 64 =
        c.toNat := by omega
    -- Code points of surrogates are no characters.
    have hvalid : c.toNat < 0xD800 ∨ 0xDFFF < c.toNat := by
      have := c.valid
      simp only [UInt32.isValidChar, Nat.isValidChar] at this
      have hval : c.val.toNat = c.toNat := rfl
      omega
    simp only [henc, List.cons_append, List.nil_append, itemsFrom_cons]
    simp only [step.eq_1, first_triple (by omega : 0xE0 ≤ c.toNat / 4096 + 0xE0) (by omega)]
    have hlow : (if c.toNat / 4096 + 0xE0 = 0xE0 then (0xA0 : UInt8) else 0x80).toNat ≤
        c.toNat / 64 % 64 + 0x80 := by
      split
      · exact show 0xA0 ≤ _ by omega
      · exact show 0x80 ≤ _ by omega
    have hhigh : c.toNat / 64 % 64 + 0x80 ≤
        (if c.toNat / 4096 + 0xE0 = 0xED then (0x9F : UInt8) else 0xBF).toNat := by
      split
      · exact show _ ≤ 0x9F by omega
      · exact show _ ≤ 0xBF by omega
    rw [step_inside_succ hlow hhigh]
    rw [step_inside_zero (show _ ≤ _ by simp) (show _ ≤ 0xBF by omega), hchar hcode]
    rfl
  · -- Four octets: the second one has bounds behind the least and the greatest first octet.
    have hcode : (((c.toNat / 262144 + 0xF0 - 0xF0) * 64 + c.toNat / 4096 % 64) * 64 +
        c.toNat / 64 % 64) * 64 + c.toNat % 64 = c.toNat := by omega
    simp only [henc, List.cons_append, List.nil_append, itemsFrom_cons]
    simp only [step.eq_1, first_quadruple (by omega : 0xF0 ≤ c.toNat / 262144 + 0xF0) (by omega)]
    have hlow : (if c.toNat / 262144 + 0xF0 = 0xF0 then (0x90 : UInt8) else 0x80).toNat ≤
        c.toNat / 4096 % 64 + 0x80 := by
      split
      · exact show 0x90 ≤ _ by omega
      · exact show 0x80 ≤ _ by omega
    have hhigh : c.toNat / 4096 % 64 + 0x80 ≤
        (if c.toNat / 262144 + 0xF0 = 0xF4 then (0x8F : UInt8) else 0xBF).toNat := by
      split
      · exact show _ ≤ 0x8F by omega
      · exact show _ ≤ 0xBF by omega
    rw [step_inside_succ hlow hhigh]
    rw [step_inside_succ (show _ ≤ _ by simp) (show _ ≤ 0xBF by omega)]
    rw [step_inside_zero (show _ ≤ _ by simp) (show _ ≤ 0xBF by omega), hchar hcode]
    rfl

/-! ## Texts -/

theorem items_flatMap (cs : List Char) :
    items (cs.flatMap String.utf8EncodeChar) = cs.map .char := by
  induction cs with
  | nil => rfl
  | cons c cs ih =>
    have hchar := itemsFrom_utf8EncodeChar c (cs.flatMap String.utf8EncodeChar)
    rw [List.flatMap_cons, items, hchar, List.map_cons, ← ih, items]

theorem decodeLossy_ofString (s : String) : decodeLossy (Bytes.ofString s) = s := by
  rw [decodeLossy, Bytes.ofString, items_flatMap, List.map_map]
  exact (congrArg String.ofList (List.map_id _)).trans String.ofList_toList

theorem decode?_flatMap (cs : List Char) :
    decode? (cs.flatMap String.utf8EncodeChar) = some (String.ofList cs) := by
  have hgo : ∀ cs : List Char, decode?.go (cs.map .char) = some cs := by
    intro cs
    induction cs with
    | nil => rfl
    | cons c cs ih => simp [decode?.go, ih]
  rw [decode?, items_flatMap, hgo, Option.map_some]

/-- Octets below 128 are characters of their own. -/
theorem decode?_of_ascii {bs : Bytes} (h : ∀ b ∈ bs, b.toNat < 0x80) :
    decode? bs = some (String.ofList (bs.map fun b => Char.ofNat b.toNat)) := by
  have hencode : (bs.map fun b => Char.ofNat b.toNat).flatMap String.utf8EncodeChar = bs := by
    induction bs with
    | nil => rfl
    | cons b bs ih =>
      have hb : b.toNat < 0x80 := h b (by simp)
      have hnat : (Char.ofNat b.toNat).toNat = b.toNat := toNat_charOfNat_of_lt hb
      have hchar : String.utf8EncodeChar (Char.ofNat b.toNat) = [b] := by
        rcases utf8EncodeChar_cases (Char.ofNat b.toNat) with ⟨_, henc⟩ | ⟨hge, _⟩ | ⟨hge, _⟩ | ⟨hge, _⟩
        · rw [henc, hnat, UInt8.ofNat_toNat]
        all_goals omega
      rw [List.map_cons, List.flatMap_cons, hchar, ih fun b hb => h b (List.mem_cons_of_mem _ hb)]
      rfl
  calc
    decode? bs = decode? ((bs.map fun b => Char.ofNat b.toNat).flatMap String.utf8EncodeChar) := by
      rw [hencode]
    _ = _ := decode?_flatMap _

/-- The first octet of a character does not continue one, and a character whose first octet is
below 128 has no other. -/
theorem utf8EncodeChar_head {c : Char} {b : UInt8} {bs : Bytes}
    (h : String.utf8EncodeChar c = b :: bs) :
    (b.toNat < 0x80 ∨ 0xC0 ≤ b.toNat) ∧ (b.toNat < 0x80 → bs = []) := by
  rcases utf8EncodeChar_cases c with ⟨hc, henc⟩ | ⟨h1, h2, henc⟩ | ⟨h1, h2, henc⟩ | ⟨h1, h2, henc⟩ <;>
    rcases List.cons.inj (h.symm.trans henc) with ⟨rfl, rfl⟩
  · rw [toNat_ofNat_of_lt (by omega)]
    exact ⟨Or.inl hc, fun _ => rfl⟩
  all_goals
    rw [toNat_ofNat_of_lt (by omega)]
    exact ⟨Or.inr (by omega), fun hlt => absurd hlt (by omega)⟩

/-! ## The order of texts -/

/-- The octets of a smaller character come first, whatever follows them. -/
theorem utf8EncodeChar_append_lt {c d : Char} (h : c < d) (rest more : Bytes) :
    String.utf8EncodeChar c ++ rest < String.utf8EncodeChar d ++ more := by
  have hlt : c.toNat < d.toNat := h
  -- A longer form starts with a greater octet, and octets of one form are digits to base 64.
  rcases utf8EncodeChar_cases c with ⟨hc, hcs⟩ | ⟨hc, hc', hcs⟩ | ⟨hc, hc', hcs⟩ | ⟨hc, hc', hcs⟩ <;>
    rcases utf8EncodeChar_cases d with
      ⟨hd, hds⟩ | ⟨hd, hd', hds⟩ | ⟨hd, hd', hds⟩ | ⟨hd, hd', hds⟩ <;>
    rw [hcs, hds] <;>
    simp (disch := omega) only [List.cons_append, List.nil_append, List.cons_lt_cons_iff,
      UInt8.lt_iff_toNat_lt, ← UInt8.toNat_inj, toNat_ofNat_of_lt] <;>
    omega

/-- Texts in ascending order have their octets in ascending order. -/
theorem ofString_lt {s t : String} (h : compare s t = .lt) :
    Bytes.ofString s < Bytes.ofString t := by
  have hlt : s.toList < t.toList := by
    rw [compare_lt_iff_lt] at h
    exact h
  rw [Bytes.ofString, Bytes.ofString]
  generalize s.toList = cs at hlt
  generalize t.toList = ds at hlt
  induction hlt with
  | @nil d ds =>
    rcases List.exists_cons_of_ne_nil (@String.utf8EncodeChar_ne_nil d) with ⟨b, bs, hbs⟩
    rw [List.flatMap_nil, List.flatMap_cons, hbs]
    exact List.Lex.nil
  | rel hcd => exact utf8EncodeChar_append_lt hcd _ _
  | cons _ ih => exact List.append_left_lt ih

end Utf8
end BuildTree
