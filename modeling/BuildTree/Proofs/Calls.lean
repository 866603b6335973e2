import Mathlib.Data.List.Forall2

/-!
# Calls that can fail — what the success of a whole says about its parts
-/

namespace BuildTree

section Calls

variable {α β γ ε : Type} {f g : α → Except ε β} {xs : List α} {ys : List β}

theorem map_eq_ok_iff {call : Except ε α} {h : α → γ} {z : γ} :
    call.map h = .ok z ↔ ∃ x, call = .ok x ∧ h x = z := by
  cases call <;> simp [Except.map]

/-- Calls for all members of a list succeed together if each of them does. -/
theorem mapM_eq_ok_iff : xs.mapM f = .ok ys ↔ List.Forall₂ (fun x y => f x = .ok y) xs ys := by
  induction xs generalizing ys with
  | nil => simp [pure, Except.pure, eq_comm]
  | cons x xs ih =>
    rw [List.mapM_cons, List.forall₂_cons_left_iff]
    cases hx : f x with
    | error err => simp [bind, Except.bind]
    | ok y =>
      cases hxs : xs.mapM f with
      | error err => simp [bind, Except.bind, ← ih, hxs]
      | ok rest => simp [bind, Except.bind, pure, Except.pure, ← ih, hxs, eq_comm]

/-- Readings of all members of a list succeed together if each of them does. -/
theorem mapM_eq_some_iff {read : α → Option β} :
    xs.mapM read = some ys ↔ List.Forall₂ (fun x y => read x = some y) xs ys := by
  induction xs generalizing ys with
  | nil => simp [eq_comm]
  | cons x xs ih =>
    rw [List.mapM_cons, List.forall₂_cons_left_iff]
    cases hx : read x with
    | none => simp
    | some y =>
      cases hxs : xs.mapM read with
      | none => simp [← ih, hxs]
      | some rest => simp [← ih, hxs, eq_comm]

theorem exists_of_mem_mapM (h : xs.mapM f = .ok ys) {y : β} (hy : y ∈ ys) :
    ∃ x ∈ xs, f x = .ok y := by
  have hcalls := mapM_eq_ok_iff.1 h
  clear h
  induction hcalls with
  | nil => cases hy
  | @cons x y' xs ys hx hxs ih =>
    rcases List.mem_cons.1 hy with rfl | hlater
    · exact ⟨x, List.mem_cons_self, hx⟩
    · rcases ih hlater with ⟨later, hmem, hcall⟩
      exact ⟨later, List.mem_cons_of_mem x hmem, hcall⟩

theorem exists_of_mapM (h : xs.mapM f = .ok ys) {x : α} (hx : x ∈ xs) : ∃ y ∈ ys, f x = .ok y := by
  have hcalls := mapM_eq_ok_iff.1 h
  clear h
  induction hcalls with
  | nil => cases hx
  | @cons x' y xs ys hy hys ih =>
    rcases List.mem_cons.1 hx with rfl | hlater
    · exact ⟨y, List.mem_cons_self, hy⟩
    · rcases ih hlater with ⟨later, hmem, hcall⟩
      exact ⟨later, List.mem_cons_of_mem y hmem, hcall⟩

/-- Calls that agree on the members of a list give the same for the list. -/
theorem mapM_congr_of_mem (h : ∀ x ∈ xs, f x = g x) : xs.mapM f = xs.mapM g := by
  induction xs with
  | nil => rfl
  | cons x xs ih =>
    rw [List.mapM_cons, List.mapM_cons, h x List.mem_cons_self,
      ih fun y hy => h y (List.mem_cons_of_mem x hy)]

/-- What is written item by item is read item by item. -/
theorem mapM_map_eq_some {read : β → Option α} {write : α → β} (h : ∀ x, read (write x) = some x)
    (xs : List α) : (xs.map write).mapM read = some xs := by
  induction xs with
  | nil => rfl
  | cons x xs ih => simp [h, ih]

end Calls

end BuildTree
