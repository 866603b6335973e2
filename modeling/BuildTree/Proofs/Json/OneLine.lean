import BuildTree.Proofs.Json.RoundTrip

/-!
# JSON on one line — no control characters

A value on one line has no control characters, since those in its texts are escaped and none stand
between its parts.  In particular it has no line ends, so that a reader of lines finds it whole.
-/

namespace BuildTree
namespace Json

/-- A text without control characters, which line ends are too. -/
def IsPrintable (text : List Char) : Prop :=
  ∀ c ∈ text, 0x20 ≤ c.toNat

instance (text : List Char) : Decidable (IsPrintable text) :=
  List.decidableBAll (fun c : Char => 0x20 ≤ c.toNat) text

theorem isPrintable_append {first second : List Char} (hfirst : IsPrintable first)
    (hsecond : IsPrintable second) : IsPrintable (first ++ second) :=
  List.forall_mem_append.2 ⟨hfirst, hsecond⟩

theorem isPrintable_cons {c : Char} {text : List Char} (hc : 0x20 ≤ c.toNat)
    (htext : IsPrintable text) : IsPrintable (c :: text) :=
  List.forall_mem_cons.2 ⟨hc, htext⟩

theorem isPrintable_intercalate {gap : List Char} {texts : List (List Char)}
    (hgap : IsPrintable gap) (htexts : ∀ text ∈ texts, IsPrintable text) :
    IsPrintable (gap.intercalate texts) := by
  induction texts with
  | nil => exact fun _ hc => by cases hc
  | cons text texts ih =>
    have htext := htexts text List.mem_cons_self
    cases texts with
    | nil => rwa [List.intercalate_singleton]
    | cons next more =>
      have hothers := ih fun other hother => htexts other (List.mem_cons_of_mem text hother)
      rw [List.intercalate_cons_of_ne_nil (List.cons_ne_nil next more)]
      exact isPrintable_append (isPrintable_append htext hgap) hothers

theorem isPrintable_escapeChar (c : Char) : IsPrintable (escapeChar c) := by
  have hdigit : ∀ n < 0x20, 0x20 ≤ (Nat.digitChar (n / 16)).toNat ∧
      0x20 ≤ (Nat.digitChar (n % 16)).toNat := by decide
  unfold escapeChar
  split_ifs with hquote hslash hfeed hreturn htab hback hform hcontrol
  -- The seven characters with a short escape.
  iterate 7
    · decide
  · intro d hd
    simp only [List.mem_cons, List.not_mem_nil, or_false] at hd
    rcases hd with rfl | rfl | rfl | rfl | rfl | rfl
    · decide
    · decide
    · decide
    · decide
    · exact (hdigit _ hcontrol).1
    · exact (hdigit _ hcontrol).2
  · intro d hd
    rw [List.mem_singleton.1 hd]
    exact Nat.le_of_not_lt hcontrol

theorem isPrintable_quoteChars (s : String) : IsPrintable (quoteChars s) := by
  have hbody : IsPrintable (s.toList.flatMap escapeChar) := by
    intro d hd
    rcases List.mem_flatMap.1 hd with ⟨c, -, hc⟩
    exact isPrintable_escapeChar c d hc
  exact isPrintable_append (isPrintable_cons (by decide) hbody) (by decide)

theorem isPrintable_toDigits (n : Nat) : IsPrintable (Nat.toDigits 10 n) := by
  intro d hd
  have hdigit := Nat.isDigit_of_mem_toDigits (by decide) (by decide) hd
  simp only [Char.isDigit, Bool.and_eq_true, decide_eq_true_eq] at hdigit
  exact le_trans (by decide) (UInt32.le_iff_toNat_le.1 hdigit.1)

theorem isPrintable_memberChars {m : String × Json} (h : IsPrintable (compactChars m.2)) :
    IsPrintable (memberChars [] compactChars m) :=
  isPrintable_append (isPrintable_quoteChars m.1) (isPrintable_cons (by decide) h)

/-- On one line there are no control characters, whatever the texts in a value hold. -/
theorem Plain.isPrintable {v : Json} (h : v.Plain) : IsPrintable (compactChars v) := by
  induction h with
  | null => decide
  | bool b => cases b <;> decide
  | natural n => exact isPrintable_toDigits n
  | string s => exact isPrintable_quoteChars s
  | @array vs inner ih =>
    have helements : IsPrintable (compactElements vs) := by
      rw [compactElements_eq]
      refine isPrintable_intercalate (by decide) fun text htext => ?_
      rcases List.mem_map.1 htext with ⟨v, hv, rfl⟩
      exact ih v hv
    rw [compactChars]
    exact isPrintable_append (isPrintable_cons (by decide) helements) (by decide)
  | @object ms inner ih =>
    have hmembers : IsPrintable (compactMembers ms) := by
      rw [compactMembers_eq]
      refine isPrintable_intercalate (by decide) fun text htext => ?_
      rcases List.mem_map.1 htext with ⟨m, hm, rfl⟩
      exact isPrintable_memberChars (ih m hm)
    rw [compactChars]
    exact isPrintable_append (isPrintable_cons (by decide) hmembers) (by decide)

end Json
end BuildTree
