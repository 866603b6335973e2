import BuildTree.Proofs.Json.Grammar

/-!
# JSON round trips — a value that is written is read back

Values without half characters, and with natural numbers only, are written as the grammar spells
them, on one line or over several.  Both ways put a comma behind every element and member but the
last, and blanks around them: none on one line, line feeds and indentations over several.
-/

namespace BuildTree
namespace Json

/-- A value that says something, with no numbers but natural ones. -/
inductive Plain : Json → Prop
  | null : Plain .null
  | bool (b : Bool) : Plain (.bool b)
  | natural (n : Nat) : Plain (.number (.natural n))
  | string (s : String) : Plain (.string s)
  | array {vs : List Json} (inner : ∀ v ∈ vs, Plain v) : Plain (.array vs)
  | object {ms : List (String × Json)} (inner : ∀ m ∈ ms, Plain m.2) : Plain (.object ms)

/-! ## Blanks -/

/-- Blanks as they stand around elements and members. -/
def AreBlank (blanks : List Char) : Prop :=
  ∀ c ∈ blanks, isSpace c = true

theorem areBlank_nil : AreBlank [] :=
  fun _ hc => by cases hc

theorem areBlank_newline (depth : Nat) : AreBlank (newline depth) := by
  intro c hc
  rcases List.mem_cons.1 hc with rfl | hblank
  · rfl
  · rw [List.eq_of_mem_replicate hblank]
    rfl

theorem areBlank_singleton : AreBlank [' '] :=
  fun _ hc => List.mem_singleton.1 hc ▸ rfl

theorem skipSpace_blanks {blanks : List Char} (h : AreBlank blanks) {c : Char}
    (hc : isSpace c = false) (text : List Char) :
    skipSpace (blanks ++ c :: text) = c :: text := by
  rw [skipSpace_append h, skipSpace_cons hc]

/-- No number goes on with a blank. -/
theorem endsNumber_blanks {blanks : List Char} (h : AreBlank blanks) {text : List Char}
    (htext : EndsNumber text) : EndsNumber (blanks ++ text) := by
  cases blanks with
  | nil => exact htext
  | cons c blanks =>
    have hspace := h c List.mem_cons_self
    rintro d ⟨⟩
    simp only [isSpace, Bool.or_eq_true, beq_iff_eq] at hspace
    rcases hspace with ((rfl | rfl) | rfl) | rfl <;> decide

theorem endsNumber_cons {c : Char}
    (h : c.isDigit = false ∧ c ≠ '.' ∧ c ≠ 'e' ∧ c ≠ 'E') (text : List Char) :
    EndsNumber (c :: text) := by
  rintro d ⟨⟩
  exact h

/-! ## Elements and members -/

/-- A writer spells a value, whatever does not go on with a number behind it. -/
def IsSpelled (write : Json → List Char) (v : Json) : Prop :=
  ∀ rest, EndsNumber rest → Spells (.value v) (write v ++ rest) rest

/-- A member as it is written: its name, a colon, blanks and its value. -/
def memberChars (blanks : List Char) (write : Json → List Char) (m : String × Json) : List Char :=
  quoteChars m.1 ++ ':' :: (blanks ++ write m.2)

section Lists

variable {write : Json → List Char} {gap front close : List Char}

/-- Values with commas and blanks between them and a bracket behind are spelled as elements. -/
theorem spells_elements {vs : List Json} (hne : vs ≠ []) (hvs : ∀ v ∈ vs, IsSpelled write v)
    (hgap : AreBlank gap) (hclose : AreBlank close) (rest : List Char) :
    Spells (.elements vs)
      ((',' :: gap).intercalate (vs.map write) ++ (close ++ ']' :: rest)) rest := by
  have hbracket : EndsNumber (close ++ ']' :: rest) :=
    endsNumber_blanks hclose (endsNumber_cons (by decide) rest)
  induction vs with
  | nil => contradiction
  | cons v vs ih =>
    have hv := hvs v List.mem_cons_self
    cases vs with
    | nil =>
      rw [List.map_singleton, List.intercalate_singleton]
      exact .lastElement (hv _ hbracket) (skipSpace_blanks hclose (by decide) rest)
    | cons w ws =>
      have hothers := ih (List.cons_ne_nil w ws) fun u hu => hvs u (List.mem_cons_of_mem v hu)
      rw [List.map_cons, List.intercalate_cons_of_ne_nil (by simp)]
      simp only [List.append_assoc, List.cons_append]
      exact .element (hv _ (endsNumber_cons (by decide) _)) (skipSpace_cons (by decide) _)
        (hothers.blanks hgap)

/-- Members with commas and blanks between them and a brace behind are spelled as members. -/
theorem spells_members {ms : List (String × Json)} (hne : ms ≠ [])
    (hms : ∀ m ∈ ms, IsSpelled write m.2) (hfront : AreBlank front) (hgap : AreBlank gap)
    (hclose : AreBlank close) (rest : List Char) :
    Spells (.members ms)
      ((',' :: gap).intercalate (ms.map (memberChars front write)) ++ (close ++ '\x7d' :: rest))
      rest := by
  have hbrace : EndsNumber (close ++ '\x7d' :: rest) :=
    endsNumber_blanks hclose (endsNumber_cons (by decide) rest)
  induction ms with
  | nil => contradiction
  | cons m ms ih =>
    rcases m with ⟨name, v⟩
    have hv : IsSpelled write v := hms (name, v) List.mem_cons_self
    cases ms with
    | nil =>
      rw [List.map_singleton, List.intercalate_singleton]
      simp only [memberChars, List.append_assoc, List.cons_append]
      exact .lastMember name ((hv _ hbrace).blanks hfront)
        (skipSpace_blanks hclose (by decide) rest)
    | cons n ns =>
      have hothers := ih (List.cons_ne_nil n ns) fun l hl => hms l (List.mem_cons_of_mem _ hl)
      rw [List.map_cons, List.intercalate_cons_of_ne_nil (by simp)]
      simp only [memberChars, List.append_assoc, List.cons_append]
      exact .member name ((hv _ (endsNumber_cons (by decide) _)).blanks hfront)
        (skipSpace_cons (by decide) _) (hothers.blanks hgap)

end Lists

/-! ## Values over several lines -/

theorem prettyElements_eq (depth : Nat) (vs : List Json) :
    prettyElements depth vs =
      (',' :: newline depth).intercalate (vs.map (prettyChars depth)) := by
  induction vs with
  | nil => rfl
  | cons v vs ih =>
    cases vs with
    | nil => simp [prettyElements]
    | cons w ws =>
      rw [List.map_cons, List.intercalate_cons_of_ne_nil (by simp), ← ih]
      simp [prettyElements]

theorem prettyMembers_eq (depth : Nat) (ms : List (String × Json)) :
    prettyMembers depth ms =
      (',' :: newline depth).intercalate (ms.map (memberChars [' '] (prettyChars depth))) := by
  induction ms with
  | nil => rfl
  | cons m ms ih =>
    rcases m with ⟨name, v⟩
    cases ms with
    | nil => simp [prettyMembers, memberChars]
    | cons n ns =>
      rw [List.map_cons, List.intercalate_cons_of_ne_nil (by simp), ← ih]
      simp [prettyMembers, memberChars]

theorem Plain.isSpelled_pretty {v : Json} (h : v.Plain) (depth : Nat) :
    IsSpelled (prettyChars depth) v := by
  -- The induction gives every element and member a spelling at any depth.
  induction h generalizing depth with
  | null => exact fun rest _ => .null rest
  | bool b =>
    cases b with
    | true => exact fun rest _ => .yes rest
    | false => exact fun rest _ => .no rest
  | natural n => exact fun rest hrest => .number n hrest
  | string s => exact fun rest _ => .string s rest
  | @array vs inner ih =>
    intro rest _
    cases vs with
    | nil => exact .noElements (skipSpace_cons (by decide) rest)
    | cons v vs =>
      have helements := spells_elements (List.cons_ne_nil v vs)
        (fun u hu => ih u hu (depth + 1)) (areBlank_newline (depth + 1)) (areBlank_newline depth)
        rest
      rw [← prettyElements_eq] at helements
      simp only [prettyChars, List.append_assoc, List.cons_append, List.nil_append]
      exact .array (helements.blanks (areBlank_newline (depth + 1)))
  | @object ms inner ih =>
    intro rest _
    cases ms with
    | nil => exact .noMembers (skipSpace_cons (by decide) rest)
    | cons m ms =>
      have hmembers := spells_members (List.cons_ne_nil m ms)
        (fun n hn => ih n hn (depth + 1)) areBlank_singleton (areBlank_newline (depth + 1))
        (areBlank_newline depth) rest
      rw [← prettyMembers_eq] at hmembers
      simp only [prettyChars, List.append_assoc, List.cons_append, List.nil_append]
      exact .object (hmembers.blanks (areBlank_newline (depth + 1)))

/-- A plain value is read back from its lines. -/
theorem parse_pretty {v : Json} (h : v.Plain) : parse v.pretty = some v := by
  have hspelled := h.isSpelled_pretty 0 [] (fun _ hc => by cases hc)
  rw [List.append_nil] at hspelled
  exact parse_eq_of_spells hspelled rfl

/-! ## Values on one line -/

theorem compactElements_eq (vs : List Json) :
    compactElements vs = [','].intercalate (vs.map compactChars) := by
  induction vs with
  | nil => rfl
  | cons v vs ih =>
    cases vs with
    | nil => simp [compactElements]
    | cons w ws =>
      rw [List.map_cons, List.intercalate_cons_of_ne_nil (by simp), ← ih]
      simp [compactElements]

theorem compactMembers_eq (ms : List (String × Json)) :
    compactMembers ms = [','].intercalate (ms.map (memberChars [] compactChars)) := by
  induction ms with
  | nil => rfl
  | cons m ms ih =>
    rcases m with ⟨name, v⟩
    cases ms with
    | nil => simp [compactMembers, memberChars]
    | cons n ns =>
      rw [List.map_cons, List.intercalate_cons_of_ne_nil (by simp), ← ih]
      simp [compactMembers, memberChars]

theorem Plain.isSpelled_compact {v : Json} (h : v.Plain) : IsSpelled compactChars v := by
  induction h with
  | null => exact fun rest _ => .null rest
  | bool b =>
    cases b with
    | true => exact fun rest _ => .yes rest
    | false => exact fun rest _ => .no rest
  | natural n => exact fun rest hrest => .number n hrest
  | string s => exact fun rest _ => .string s rest
  | @array vs inner ih =>
    intro rest _
    simp only [compactChars, List.append_assoc, List.cons_append, List.nil_append]
    cases vs with
    | nil => exact .noElements (skipSpace_cons (by decide) rest)
    | cons v vs =>
      rw [compactElements_eq]
      exact .array (spells_elements (List.cons_ne_nil v vs) ih areBlank_nil areBlank_nil rest)
  | @object ms inner ih =>
    intro rest _
    simp only [compactChars, List.append_assoc, List.cons_append, List.nil_append]
    cases ms with
    | nil => exact .noMembers (skipSpace_cons (by decide) rest)
    | cons m ms =>
      rw [compactMembers_eq]
      exact .object
        (spells_members (List.cons_ne_nil m ms) ih areBlank_nil areBlank_nil areBlank_nil rest)

/-- A plain value is read back from its line. -/
theorem parse_compact {v : Json} (h : v.Plain) : parse v.compact = some v := by
  have hspelled := h.isSpelled_compact [] (fun _ hc => by cases hc)
  rw [List.append_nil] at hspelled
  exact parse_eq_of_spells hspelled rfl

end Json
end BuildTree
