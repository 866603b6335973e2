import BuildTree.Json.Parser
import BuildTree.Json.Printer
import Mathlib.Data.List.Basic

/-!
# JSON strings — a quoted text is read as itself

Escaping works character by character, and so does the first pass of the reader: what one character
was escaped to is one piece, a unit for the control characters without a short escape and else the
character itself.  Such a unit is no half of a pair, so the second pass gives back every character.
-/

namespace BuildTree
namespace Json

/-- The piece that an escaped character is read as. -/
def pieceOf (c : Char) : Piece :=
  if c.toNat < 0x20 ∧ c ∉ ['\n', '\r', '\t', '\x08', '\x0c'] then .unit c.toNat else .char c

theorem hexNumber?_of_control {n : Nat} (h : n < 0x20) :
    Digit.hexNumber? ['0', '0', Nat.digitChar (n / 16), Nat.digitChar (n % 16)] = some n := by
  revert n
  decide

theorem pieces_cons {c : Char} (hquote : c ≠ '"') (hslash : c ≠ '\\') (hcontrol : ¬c.toNat < 0x20)
    (rest : List Char) :
    pieces (c :: rest) = (pieces rest).map fun (ps, after) => (.char c :: ps, after) := by
  simp [pieces, hslash, hcontrol]

theorem pieces_escapeChar (c : Char) (rest : List Char) :
    pieces (escapeChar c ++ rest) =
      (pieces rest).map fun (ps, after) => (pieceOf c :: ps, after) := by
  have hshort : ∀ {c e : Char}, escaped? e = some c → e ≠ 'u' → pieceOf c = .char c →
      pieces ('\\' :: e :: rest) =
        (pieces rest).map fun (ps, after) => (pieceOf c :: ps, after) := by
    intro c e hescaped hunit hpiece
    simp [pieces, hescaped, hunit, hpiece]
  unfold escapeChar
  split_ifs with hquote hslash hfeed hreturn htab hback hform hcontrol
  -- The seven characters with a short escape.
  iterate 7
    subst c
    exact hshort rfl (by decide) rfl
  · have hpiece : pieceOf c = .unit c.toNat := if_pos ⟨hcontrol, by simp [*]⟩
    simp only [List.cons_append, List.nil_append, pieces, hexNumber?_of_control hcontrol, hpiece]
  · have hpiece : pieceOf c = .char c := if_neg fun h => hcontrol h.1
    rw [List.singleton_append, pieces_cons hquote hslash hcontrol, hpiece]

/-- The pieces of a quoted text, one for each character, end at the closing quote. -/
theorem pieces_flatMap_escapeChar (cs rest : List Char) :
    pieces (cs.flatMap escapeChar ++ '"' :: rest) = some (cs.map pieceOf, rest) := by
  -- The induction is on the text: what one character is escaped to is read as one piece.
  induction cs with
  | nil => simp [pieces]
  | cons c cs ih =>
    rw [List.flatMap_cons, List.append_assoc, pieces_escapeChar, ih]
    rfl

/-- A unit below the halves of pairs is a character of its own, whatever follows. -/
theorem assemble_unit {n : Nat} (h : n < 0x20) (ps : List Piece) :
    assemble (.unit n :: ps) = (assemble ps).map (Char.ofNat n :: ·) := by
  have hhigh : isHighHalf n = false := by simp [isHighHalf]; omega
  have hlow : isLowHalf n = false := by simp [isLowHalf]; omega
  cases ps with
  | nil => simp [assemble, hhigh, hlow]
  | cons p ps =>
    cases p with
    | char c => simp [assemble, hhigh, hlow]
    | unit low => simp [assemble, hhigh, hlow]

theorem assemble_map_pieceOf (cs : List Char) : assemble (cs.map pieceOf) = some cs := by
  induction cs with
  | nil => rfl
  | cons c cs ih =>
    rw [List.map_cons, pieceOf]
    split
    · rename_i hcontrol
      rw [assemble_unit hcontrol.1, ih, Option.map_some, Char.ofNat_toNat]
    · rw [assemble, ih, Option.map_some]

/-- What stands between the quotes of a text is read as the text. -/
theorem stringBody_flatMap_escapeChar (s : String) (rest : List Char) :
    stringBody (s.toList.flatMap escapeChar ++ '"' :: rest) = some (some s, rest) := by
  have hassembled := assemble_map_pieceOf s.toList
  simp only [stringBody, pieces_flatMap_escapeChar, Option.map_some, hassembled,
    String.ofList_toList]

end Json
end BuildTree
