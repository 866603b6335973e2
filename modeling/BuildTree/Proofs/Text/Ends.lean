import BuildTree.Text.Lines
import Mathlib.Data.List.TakeWhile

/-!
# Ends of texts — how a text starts and where it can end

A suffix that starts with a character does not reach back into what is free of that character.
-/

namespace BuildTree
namespace Text

theorem startsWith_dot_iff {text : String} :
    startsWith text "." = true ↔ text.toList.head? = some '.' := by
  rw [startsWith, List.isPrefixOf_iff_prefix]
  constructor
  · rintro ⟨rest, hrest⟩
    rw [← hrest]
    rfl
  · intro h
    rcases List.head?_eq_some_iff.1 h with ⟨rest, hrest⟩
    exact ⟨rest, hrest.symm⟩

theorem endsWith_iff {text suffix : String} :
    endsWith text suffix = true ↔ suffix.toList <:+ text.toList := by
  rw [endsWith, List.isSuffixOf_iff_suffix]

/-- What is put in front of a text is no part of a suffix if it lacks the first character of it. -/
theorem suffix_append_iff_of_notMem {suffix front text : List Char} {c : Char}
    (hhead : suffix.head? = some c) (hfront : c ∉ front) :
    suffix <:+ front ++ text ↔ suffix <:+ text := by
  induction front with
  | nil => rfl
  | cons a front ih =>
    rw [List.mem_cons, not_or] at hfront
    rw [List.cons_append, List.suffix_cons_iff, ih hfront.2]
    refine or_iff_right ?_
    rintro rfl
    exact hfront.1 (Option.some.inj hhead).symm

/-- Slashes in front of a text say nothing about how it ends, if the end starts with a dot. -/
theorem endsWith_dropSlashes {text suffix : String} (hdot : startsWith suffix "." = true) :
    endsWith ("/" ++ dropSlashes text) suffix = endsWith text suffix := by
  have hhead := startsWith_dot_iff.1 hdot
  have hslashes : '.' ∉ text.toList.takeWhile (· == '/') := fun hmem =>
    absurd (List.mem_takeWhile_imp hmem) (by decide)
  have hrooted : ("/" ++ dropSlashes text).toList =
      ['/'] ++ text.toList.dropWhile (· == '/') := by
    rw [String.toList_append]
    exact congrArg (['/'] ++ ·) String.toList_ofList
  have hsplit : text.toList =
      text.toList.takeWhile (· == '/') ++ text.toList.dropWhile (· == '/') :=
    List.takeWhile_append_dropWhile.symm
  rw [Bool.eq_iff_iff, endsWith_iff, endsWith_iff, hrooted,
    suffix_append_iff_of_notMem hhead (by decide), hsplit,
    suffix_append_iff_of_notMem hhead hslashes, ← hsplit]

end Text
end BuildTree
