import BuildTree.Proofs.Json.Strings
import Mathlib.Data.List.DropRight
import Mathlib.Data.List.TakeWhile
import Mathlib.Data.Nat.Digits.Defs

/-!
# The grammar of JSON — what spells a value is read as that value

A grammar says which texts start with a value, and what is behind it, for values that say something:
it has no escapes that are half of a character and no numbers but natural ones.  The reader follows
the grammar and never runs out of fuel on the way, because what it reads of a text is as long as the
fuel that it uses.
-/

namespace BuildTree
namespace Json

/-! ## White space -/

theorem skipSpace_cons {c : Char} (h : isSpace c = false) (text : List Char) :
    skipSpace (c :: text) = c :: text := by
  rw [skipSpace, List.dropWhile_cons, h, if_neg Bool.false_ne_true]

theorem skipSpace_blank {c : Char} (h : isSpace c = true) (text : List Char) :
    skipSpace (c :: text) = skipSpace text := by
  rw [skipSpace, List.dropWhile_cons, if_pos h, skipSpace]

theorem skipSpace_append {blanks : List Char} (h : ∀ c ∈ blanks, isSpace c = true)
    (text : List Char) : skipSpace (blanks ++ text) = skipSpace text :=
  List.dropWhile_append_of_pos h

theorem length_skipSpace_le (text : List Char) : (skipSpace text).length ≤ text.length :=
  List.length_dropWhile_le isSpace text

/-! ## Natural numbers -/

/-- A text that does not go on with a number. -/
def EndsNumber (text : List Char) : Prop :=
  ∀ c ∈ text.head?, c.isDigit = false ∧ c ≠ '.' ∧ c ≠ 'e' ∧ c ≠ 'E'

/-- A number with several digits does not start with a zero. -/
theorem head?_toDigits_ne {n : Nat} (h : 10 ≤ n) : (Nat.toDigits 10 n).head? ≠ some '0' := by
  induction n using Nat.strong_induction_on with
  | _ n ih =>
    rw [Nat.toDigits_of_base_le (by decide) h, List.head?_append_of_ne_nil _ Nat.toDigits_ne_nil]
    by_cases hsmall : n / 10 < 10
    · -- One digit is left, and it is not zero.
      rw [Nat.toDigits_of_lt_base hsmall]
      have hpos : 0 < n / 10 := Nat.div_pos h (by decide)
      generalize n / 10 = d at hsmall hpos
      revert d
      decide
    · exact ih (n / 10) (Nat.div_lt_self (by omega) (by decide)) (by omega)

theorem digits_append {ds : List Char} (hne : ds ≠ []) (hdigits : ∀ d ∈ ds, d.isDigit = true)
    {rest : List Char} (hrest : EndsNumber rest) : digits (ds ++ rest) = some (ds, rest) := by
  have htake : rest.takeWhile Char.isDigit = [] := by
    cases rest with
    | nil => rfl
    | cons c rest => rw [List.takeWhile_cons, (hrest c rfl).1, if_neg Bool.false_ne_true]
  have hdrop : rest.dropWhile Char.isDigit = rest := by
    cases rest with
    | nil => rfl
    | cons c rest => rw [List.dropWhile_cons, (hrest c rfl).1, if_neg Bool.false_ne_true]
  rw [digits, List.takeWhile_append_of_pos hdigits, List.dropWhile_append_of_pos hdigits, htake,
    hdrop, List.append_nil]
  split
  · contradiction
  · rfl

theorem wholePart_toDigits (n : Nat) {rest : List Char} (hrest : EndsNumber rest) :
    wholePart (Nat.toDigits 10 n ++ rest) = some (Nat.toDigits 10 n, rest) := by
  have hdigits := digits_append (@Nat.toDigits_ne_nil n 10)
    (fun d hd => Nat.isDigit_of_mem_toDigits (by decide) (by decide) hd) hrest
  have hstart : (Nat.toDigits 10 n).length = 1 ∨ (Nat.toDigits 10 n).head? ≠ some '0' := by
    by_cases hsmall : n < 10
    · rw [Nat.toDigits_of_lt_base hsmall]
      exact Or.inl rfl
    · exact Or.inr (head?_toDigits_ne (by omega))
  simp only [wholePart, hdigits, if_pos hstart]

/-- Behind the digits of a natural number nothing is left of it. -/
theorem unsigned_toDigits (n : Nat) {rest : List Char} (hrest : EndsNumber rest) :
    unsigned [] (Nat.toDigits 10 n ++ rest) = some (.natural n, rest) := by
  have hfraction : fraction rest = some ([], rest) := by
    cases rest with
    | nil => rfl
    | cons c rest => simp [fraction, (hrest c rfl).2.1]
  have hexponent : exponent rest = some ([], rest) := by
    cases rest with
    | nil => rfl
    | cons c rest => simp [exponent, (hrest c rfl).2.2]
  have hvalue : Nat.ofDigitChars 10 (Nat.toDigits 10 n) 0 = n :=
    Nat.ofDigitChars_toDigits (by decide) (by decide)
  simp [unsigned, wholePart_toDigits n hrest, hfraction, hexponent, hvalue]

theorem exists_toDigits_eq_cons (n : Nat) :
    ∃ d ds, Nat.toDigits 10 n = d :: ds ∧ d.isDigit = true := by
  rcases List.exists_cons_of_ne_nil (@Nat.toDigits_ne_nil n 10) with ⟨d, ds, hds⟩
  refine ⟨d, ds, hds, ?_⟩
  exact Nat.isDigit_of_mem_toDigits (by decide) (by decide) (hds ▸ List.mem_cons_self)

theorem isSpace_of_isDigit {c : Char} (h : c.isDigit = true) : isSpace c = false := by
  rw [Bool.eq_false_iff]
  intro hspace
  simp only [isSpace, Bool.or_eq_true, beq_iff_eq] at hspace
  rcases hspace with ((rfl | rfl) | rfl) | rfl <;> cases h

/-! ## Values -/

/-- What can be spelled: a value, elements up to their bracket, or members up to their brace. -/
inductive Phrase
  | value (v : Json)
  | elements (vs : List Json)
  | members (ms : List (String × Json))

/-- The texts that start with a phrase, and what is behind it. -/
inductive Spells : Phrase → (text rest : List Char) → Prop
  | null (rest : List Char) : Spells (.value .null) ('n' :: 'u' :: 'l' :: 'l' :: rest) rest
  | yes (rest : List Char) : Spells (.value (.bool true)) ('t' :: 'r' :: 'u' :: 'e' :: rest) rest
  | no (rest : List Char) :
      Spells (.value (.bool false)) ('f' :: 'a' :: 'l' :: 's' :: 'e' :: rest) rest
  | number (n : Nat) {rest : List Char} (ends : EndsNumber rest) :
      Spells (.value (.number (.natural n))) (Nat.toDigits 10 n ++ rest) rest
  | string (s : String) (rest : List Char) : Spells (.value (.string s)) (quoteChars s ++ rest) rest
  | noElements {text rest : List Char} (close : skipSpace text = ']' :: rest) :
      Spells (.value (.array [])) ('[' :: text) rest
  | array {vs : List Json} {text rest : List Char} (inner : Spells (.elements vs) text rest) :
      Spells (.value (.array vs)) ('[' :: text) rest
  | noMembers {text rest : List Char} (close : skipSpace text = '\x7d' :: rest) :
      Spells (.value (.object [])) ('\x7b' :: text) rest
  | object {ms : List (String × Json)} {text rest : List Char}
      (inner : Spells (.members ms) text rest) : Spells (.value (.object ms)) ('\x7b' :: text) rest
  | blank {p : Phrase} {c : Char} {text rest : List Char} (space : isSpace c = true)
      (inner : Spells p text rest) : Spells p (c :: text) rest
  | lastElement {v : Json} {text behind rest : List Char} (last : Spells (.value v) text behind)
      (close : skipSpace behind = ']' :: rest) : Spells (.elements [v]) text rest
  | element {v : Json} {vs : List Json} {text behind more rest : List Char}
      (first : Spells (.value v) text behind) (comma : skipSpace behind = ',' :: more)
      (others : Spells (.elements vs) more rest) : Spells (.elements (v :: vs)) text rest
  | lastMember (name : String) {v : Json} {text behind rest : List Char}
      (last : Spells (.value v) text behind) (close : skipSpace behind = '\x7d' :: rest) :
      Spells (.members [(name, v)]) (quoteChars name ++ ':' :: text) rest
  | member (name : String) {v : Json} {ms : List (String × Json)}
      {text behind more rest : List Char} (first : Spells (.value v) text behind)
      (comma : skipSpace behind = ',' :: more)
      (others : Spells (.members ms) more rest) :
      Spells (.members ((name, v) :: ms)) (quoteChars name ++ ':' :: text) rest

/-- The reader gets a phrase from a text. -/
def Phrase.Reads : Phrase → (fuel : Nat) → (text rest : List Char) → Prop
  | .value v, fuel, text, rest => Json.value fuel text = some (v, rest)
  | .elements vs, fuel, text, rest => Json.elements fuel text = some (vs, rest)
  | .members ms, fuel, text, rest => Json.members fuel text = some (some ms, rest)

theorem Phrase.Reads.of_less {p : Phrase} {text rest : List Char} (hlt : rest.length < text.length)
    (h : ∀ less, text.length < less + 1 + rest.length → p.Reads (less + 1) text rest) {fuel : Nat}
    (hfuel : text.length < fuel + rest.length) : p.Reads fuel text rest := by
  cases fuel with
  | zero => omega
  | succ less => exact h less hfuel

/-- The bracket that a phrase does not start with. -/
def Phrase.closer : Phrase → Char
  | .members _ => '\x7d'
  | _ => ']'

theorem quoteChars_append (s : String) (rest : List Char) :
    quoteChars s ++ rest = '"' :: (s.toList.flatMap escapeChar ++ '"' :: rest) := by
  simp [quoteChars]

/-! ### Readers at the start of a text -/

/-- Every reader passes over a blank in front. -/
theorem Phrase.Reads.blank {p : Phrase} {fuel : Nat} {c : Char} {text rest : List Char}
    (hspace : isSpace c = true) (h : p.Reads fuel text rest) : p.Reads fuel (c :: text) rest := by
  have hvalue : ∀ fuel, Json.value fuel (c :: text) = Json.value fuel text := by
    intro fuel
    cases fuel with
    | zero => rfl
    | succ fuel => simp only [Json.value, skipSpace_blank hspace]
  cases fuel with
  | zero => cases p <;> cases h
  | succ fuel =>
    cases p with
    | value v => exact (hvalue _).trans h
    | elements vs =>
      simp only [Phrase.Reads, Json.elements, hvalue] at h ⊢
      exact h
    | members ms =>
      simp only [Phrase.Reads, Json.members, skipSpace_blank hspace] at h ⊢
      exact h

theorem value_quote (fuel : Nat) (s : String) (rest : List Char) :
    value (fuel + 1) (quoteChars s ++ rest) = some (.string s, rest) := by
  have hbody := stringBody_flatMap_escapeChar s rest
  rw [quoteChars_append, value, skipSpace_cons (by decide)]
  simp only [hbody]

theorem value_bracket (fuel : Nat) (text : List Char) :
    value (fuel + 1) ('[' :: text) =
      match skipSpace text with
      | ']' :: after => some (.array [], after)
      | _ => (elements fuel text).map fun (vs, after) => (.array vs, after) :=
  rfl

theorem value_brace (fuel : Nat) (text : List Char) :
    value (fuel + 1) ('\x7b' :: text) =
      match skipSpace text with
      | '\x7d' :: after => some (.object [], after)
      | _ =>
          match members fuel text with
          | some (some ms, after) => some (.object ms, after)
          | some (none, after) => some (.unreadable, after)
          | none => none :=
  rfl

theorem members_lastMember {fuel : Nat} (name : String) {text behind rest : List Char} {v : Json}
    (hread : value fuel text = some (v, behind)) (hclose : skipSpace behind = '\x7d' :: rest) :
    members (fuel + 1) (quoteChars name ++ ':' :: text) = some (some [(name, v)], rest) := by
  have hbody := stringBody_flatMap_escapeChar name (':' :: text)
  rw [members, quoteChars_append, skipSpace_cons (by decide)]
  simp only [hbody, skipSpace_cons (show isSpace ':' = false by decide), hread, hclose,
    Option.map_some]

theorem members_member {fuel : Nat} (name : String) {text behind more rest : List Char} {v : Json}
    {ms : List (String × Json)} (hread : value fuel text = some (v, behind))
    (hcomma : skipSpace behind = ',' :: more) (hmore : members fuel more = some (some ms, rest)) :
    members (fuel + 1) (quoteChars name ++ ':' :: text) = some (some ((name, v) :: ms), rest) := by
  have hbody := stringBody_flatMap_escapeChar name (':' :: text)
  rw [members, quoteChars_append, skipSpace_cons (by decide)]
  simp only [hbody, skipSpace_cons (show isSpace ':' = false by decide), hread, hcomma, hmore,
    Option.map_some, Option.bind_some]

theorem value_digit (fuel : Nat) {d : Char} (hdigit : d.isDigit = true) (text : List Char) :
    value (fuel + 1) (d :: text) =
      (unsigned [] (d :: text)).map fun (n, after) => (.number n, after) := by
  -- Whatever else a value can start with is no digit.
  have hother : ∀ {c : Char}, c.isDigit = false → d ≠ c := by
    rintro c hc rfl
    rw [hc] at hdigit
    cases hdigit
  have htoken : numberToken (d :: text) = unsigned [] (d :: text) := by
    unfold numberToken
    split
    · rename_i heq
      exact absurd (List.cons.inj heq).1 (hother rfl)
    · rfl
  rw [value, skipSpace_cons (isSpace_of_isDigit hdigit)]
  split
  case h_7 => rw [htoken]
  all_goals
    rename_i heq
    exact absurd (List.cons.inj heq).1 (hother rfl)

theorem value_toDigits (fuel n : Nat) {rest : List Char} (h : EndsNumber rest) :
    value (fuel + 1) (Nat.toDigits 10 n ++ rest) = some (.number (.natural n), rest) := by
  have hread := unsigned_toDigits n h
  rcases exists_toDigits_eq_cons n with ⟨d, ds, hds, hdigit⟩
  rw [hds, List.cons_append] at hread ⊢
  rw [value_digit fuel hdigit, hread, Option.map_some]

namespace Spells

variable {p : Phrase} {text rest : List Char}

theorem blanks {front : List Char} (h : Spells p text rest)
    (hfront : ∀ c ∈ front, isSpace c = true) : Spells p (front ++ text) rest := by
  induction front with
  | nil => exact h
  | cons c front ih =>
    exact .blank (hfront c List.mem_cons_self)
      (ih fun d hd => hfront d (List.mem_cons_of_mem c hd))

theorem length_lt (h : Spells p text rest) : rest.length < text.length := by
  induction h with
  | null rest => simp; omega
  | yes rest => simp; omega
  | no rest => simp; omega
  | number n ends => simp [Nat.length_toDigits_pos]
  | string s rest => simp [quoteChars_append]; omega
  | @noElements text rest close =>
    have hle := close ▸ length_skipSpace_le text
    simp at hle ⊢
    omega
  | array inner ih => simp; omega
  | @noMembers text rest close =>
    have hle := close ▸ length_skipSpace_le text
    simp at hle ⊢
    omega
  | object inner ih => simp; omega
  | blank space inner ih => exact Nat.lt_succ_of_lt ih
  | @lastElement v text behind rest last close ih =>
    have hle := close ▸ length_skipSpace_le behind
    simp at hle
    omega
  | @element v vs text behind more rest first comma others ihfirst ihothers =>
    have hle := comma ▸ length_skipSpace_le behind
    simp at hle
    omega
  | @lastMember name v text behind rest last close ih =>
    have hle := close ▸ length_skipSpace_le behind
    simp at hle ⊢
    omega
  | @member name v ms text behind more rest first comma others ihfirst ihothers =>
    have hle := comma ▸ length_skipSpace_le behind
    simp at hle ⊢
    omega

/-- No list starts with the bracket that would close it. -/
theorem skipSpace_ne (h : Spells p text rest) (after : List Char) :
    skipSpace text ≠ p.closer :: after := by
  induction h with
  | null rest => exact fun heq => by cases heq
  | yes rest => exact fun heq => by cases heq
  | no rest => exact fun heq => by cases heq
  | number n ends =>
    rcases exists_toDigits_eq_cons n with ⟨d, ds, hds, hdigit⟩
    rw [hds, List.cons_append, skipSpace_cons (isSpace_of_isDigit hdigit)]
    rintro ⟨⟩
    cases hdigit
  | string s rest => 
    rw [quoteChars_append]
    exact fun heq => by cases heq
  | noElements close => exact fun heq => by cases heq
  | array inner ih => exact fun heq => by cases heq
  | noMembers close => exact fun heq => by cases heq
  | object inner ih => exact fun heq => by cases heq
  | @blank p c text rest space inner ih => exact skipSpace_blank space text ▸ ih
  | lastElement last close ih => exact ih
  | element first comma others ihfirst ihothers => exact ihfirst
  | lastMember name last close ih =>
    rw [quoteChars_append]
    exact fun heq => by cases heq
  | member name first comma others ihfirst ihothers =>
    rw [quoteChars_append]
    exact fun heq => by cases heq

/-- The reader follows the grammar with fuel for what it reads. -/
theorem reads (h : Spells p text rest) {fuel : Nat} (hfuel : text.length < fuel + rest.length) :
    p.Reads fuel text rest := by
  refine .of_less h.length_lt ?_ hfuel
  clear hfuel fuel
  -- The induction is on the grammar: whatever is read after a first step has less fuel.
  induction h with
  | null rest => exact fun _ _ => rfl
  | yes rest => exact fun _ _ => rfl
  | no rest => exact fun _ _ => rfl
  | number n ends => exact fun fuel _ => value_toDigits fuel n ends
  | string s rest => exact fun fuel _ => value_quote fuel s rest
  | noElements close =>
    intro fuel _
    simp only [Phrase.Reads, value_bracket, close]
  | @array vs text rest inner ih =>
    intro fuel hfuel
    have hread : elements fuel text = some (vs, rest) :=
      Phrase.Reads.of_less inner.length_lt ih (by simp at hfuel; omega)
    rw [Phrase.Reads, value_bracket]
    split
    · -- A list that is closed at once has no elements.
      rename_i after hclose
      exact absurd hclose (inner.skipSpace_ne after)
    · rw [hread, Option.map_some]
  | noMembers close =>
    intro fuel _
    simp only [Phrase.Reads, value_brace, close]
  | @object ms text rest inner ih =>
    intro fuel hfuel
    have hread : members fuel text = some (some ms, rest) :=
      Phrase.Reads.of_less inner.length_lt ih (by simp at hfuel; omega)
    rw [Phrase.Reads, value_brace]
    split
    · rename_i after hclose
      exact absurd hclose (inner.skipSpace_ne after)
    · rw [hread]
  | @blank p c text rest space inner ih =>
    intro fuel hfuel
    have hread : p.Reads (fuel + 1) text rest :=
      .of_less inner.length_lt ih (by simp at hfuel; omega)
    exact hread.blank space
  | @lastElement v text behind rest last close ih =>
    intro fuel hfuel
    have hle := close ▸ length_skipSpace_le behind
    have hread : value fuel text = some (v, behind) :=
      Phrase.Reads.of_less last.length_lt ih (by simp at hle; omega)
    simp only [Phrase.Reads, elements, hread, close]
  | @element v vs text behind more rest first comma others ihfirst ihothers =>
    intro fuel hfuel
    have hle := comma ▸ length_skipSpace_le behind
    have hfirst := first.length_lt
    have hothers := others.length_lt
    -- The first element leaves at least its comma and the bracket to be read with the rest.
    have hread : value fuel text = some (v, behind) :=
      Phrase.Reads.of_less hfirst ihfirst (by simp at hle; omega)
    have hmore : elements fuel more = some (vs, rest) :=
      Phrase.Reads.of_less hothers ihothers (by simp at hle; omega)
    simp only [Phrase.Reads, elements, hread, comma, hmore, Option.map_some]
  | @lastMember name v text behind rest last close ih =>
    intro fuel hfuel
    have hle := close ▸ length_skipSpace_le behind
    simp at hfuel hle
    have hread : value fuel text = some (v, behind) :=
      Phrase.Reads.of_less last.length_lt ih (by omega)
    exact members_lastMember name hread close
  | @member name v ms text behind more rest first comma others ihfirst ihothers =>
    intro fuel hfuel
    have hle := comma ▸ length_skipSpace_le behind
    have hfirst := first.length_lt
    have hothers := others.length_lt
    simp at hfuel hle
    have hread : value fuel text = some (v, behind) :=
      Phrase.Reads.of_less hfirst ihfirst (by omega)
    have hmore : members fuel more = some (some ms, rest) :=
      Phrase.Reads.of_less hothers ihothers (by omega)
    exact members_member name hread comma hmore

end Spells

/-- What spells a value up to blanks is parsed as the value. -/
theorem parse_eq_of_spells {v : Json} {text rest : List Char} (h : Spells (.value v) text rest)
    (hrest : skipSpace rest = []) : parse (String.ofList text) = some v := by
  have hread : value (text.length + 1) text = some (v, rest) := h.reads (by omega)
  simp only [parse, String.toList_ofList, hread, hrest, List.isEmpty_nil, if_true]

end Json
end BuildTree
