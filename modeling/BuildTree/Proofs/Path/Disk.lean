import BuildTree.Path.Disk
import BuildTree.Proofs.Path.Names

/-!
# Disk paths — joining and stripping by pieces

A body is its pieces with a slash between them, and the pieces that say something are its components.
Stripping takes pieces off the front until as many components are gone as the leading path has, so
what is left is the same whatever directory both paths are joined to.
-/

namespace BuildTree
namespace Disk

/-! ## Joining -/

theorem join_of_isAbsolute {path : String} (h : isAbsolute path = true) (base : String) :
    join base path = path :=
  if_pos h

/-- What is joined to a directory that starts at the root starts there too. -/
theorem isAbsolute_join {base : String} (h : isAbsolute base = true) (path : String) :
    isAbsolute (join base path) = true := by
  have hhead : base.toList.head? = some '/' := by simpa [isAbsolute] using h
  rcases List.head?_eq_some_iff.1 hhead with ⟨more, hmore⟩
  unfold join
  split
  · assumption
  · split <;> simp [isAbsolute, hmore]

theorem join_eq_empty_iff {base path : String} : join base path = "" ↔ base = "" ∧ path = "" := by
  unfold join
  split
  · rename_i habsolute
    have hne : path ≠ "" := by
      rintro rfl
      cases habsolute
    simp [hne]
  · split
    · exact String.append_eq_empty_iff
    · rename_i hlast
      have hne : base ≠ "" := by
        rintro rfl
        exact hlast rfl
      simp [hne]

/-! ## Pieces of a body -/

/-- Pieces with a slash between them. -/
def joined (pieces : List (List Char)) : List Char :=
  ['/'].intercalate pieces

/-- The pieces that are components. -/
def loud (pieces : List (List Char)) : List (List Char) :=
  pieces.filter (!isSilent ·)

section Pieces

variable {piece : List Char} {pieces front back : List (List Char)}

theorem joined_cons (piece : List Char) (hne : pieces ≠ []) :
    joined (piece :: pieces) = piece ++ '/' :: joined pieces := by
  rcases List.exists_cons_of_ne_nil hne with ⟨next, rest, rfl⟩
  rw [joined, joined, List.intercalate_cons_cons]
  simp

theorem joined_cases (piece : List Char) (pieces : List (List Char)) :
    joined (piece :: pieces) = piece ∨ ∃ more, joined (piece :: pieces) = piece ++ '/' :: more := by
  by_cases hnil : pieces = []
  · subst hnil
    exact Or.inl List.intercalate_singleton
  · exact Or.inr ⟨_, joined_cons piece hnil⟩

theorem joined_splitOn (body : List Char) : joined (body.splitOn '/') = body :=
  List.intercalate_splitOn '/'

/-- The first piece of a body, and the body behind it. -/
theorem cut_joined (hslash : '/' ∉ piece) (pieces : List (List Char)) :
    (joined (piece :: pieces)).takeWhile (· != '/') = piece ∧
      ((joined (piece :: pieces)).dropWhile (· != '/')).drop 1 = joined pieces := by
  have hpiece : ∀ c ∈ piece, (c != '/') = true := by
    intro c hc
    rw [bne_iff_ne]
    rintro rfl
    exact hslash hc
  by_cases hnil : pieces = []
  · subst hnil
    rw [joined, List.intercalate_singleton, List.takeWhile_eq_self_iff.2 hpiece,
      List.dropWhile_eq_nil_iff.2 hpiece]
    exact ⟨rfl, rfl⟩
  · rw [joined_cons piece hnil, List.takeWhile_append_of_pos hpiece,
      List.dropWhile_append_of_pos hpiece]
    simp

theorem isSilent_eq_false_iff : isSilent piece = false ↔ piece ≠ [] ∧ piece ≠ ['.'] := by
  simp [isSilent]

theorem length_joined_lt (hne : joined (piece :: pieces) ≠ []) :
    (joined pieces).length < (joined (piece :: pieces)).length := by
  by_cases hnil : pieces = []
  · subst hnil
    exact List.length_pos_of_ne_nil hne
  · rw [joined_cons piece hnil, List.length_append, List.length_cons]
    omega

/-- Only silent pieces make up a body without characters. -/
theorem dropWhile_of_joined_eq_nil (h : joined pieces = []) : pieces.dropWhile isSilent = [] := by
  cases pieces with
  | nil => rfl
  | cons piece pieces =>
    by_cases hnil : pieces = []
    · subst hnil
      rw [joined, List.intercalate_singleton] at h
      rw [h]
      rfl
    · rw [joined_cons piece hnil] at h
      simp at h

theorem dropSilent_joined (h : ∀ piece ∈ pieces, '/' ∉ piece) :
    dropSilent (joined pieces) = joined (pieces.dropWhile isSilent) := by
  have hgo : ∀ fuel, (joined pieces).length ≤ fuel →
      dropSilent.go fuel (joined pieces) = joined (pieces.dropWhile isSilent) := by
    intro fuel
    induction fuel generalizing pieces with
    | zero =>
      intro hlength
      have hempty := List.eq_nil_of_length_eq_zero (Nat.le_zero.1 hlength)
      rw [dropWhile_of_joined_eq_nil hempty, dropSilent.go, hempty]
      rfl
    | succ fuel ih =>
      intro hlength
      rw [dropSilent.go]
      by_cases hempty : joined pieces = []
      · rw [dropWhile_of_joined_eq_nil hempty, hempty]
        rfl
      · cases pieces with
        | nil => exact absurd rfl hempty
        | cons piece pieces =>
          rcases cut_joined (h piece List.mem_cons_self) pieces with ⟨hfirst, hrest⟩
          rw [if_neg (by simpa using hempty), hfirst, hrest]
          split
          · rename_i hsilent
            rw [List.dropWhile_cons_of_pos hsilent]
            refine ih (fun other hother => h other (List.mem_cons_of_mem _ hother)) ?_
            have := length_joined_lt hempty
            omega
          · rename_i hloud
            rw [List.dropWhile_cons_of_neg hloud]
  exact hgo _ (Nat.le_refl _)

theorem dropComponent_joined (h : ∀ piece ∈ pieces, '/' ∉ piece) :
    dropComponent (joined pieces) = joined (pieces.dropWhile isSilent).tail := by
  rw [dropComponent, dropSilent_joined h]
  cases hrest : pieces.dropWhile isSilent with
  | nil => rfl
  | cons piece rest =>
    have hmem : piece ∈ pieces := by
      apply (List.dropWhile_sublist isSilent).subset
      rw [hrest]
      exact List.mem_cons_self
    exact (cut_joined (h piece hmem) rest).2

theorem loud_append (front back : List (List Char)) :
    loud (front ++ back) = loud front ++ loud back :=
  List.filter_append front back

theorem loud_eq_self (h : ∀ piece ∈ pieces, isSilent piece = false) : loud pieces = pieces :=
  List.filter_eq_self.2 (by simpa using h)

theorem loud_tail_dropWhile (pieces : List (List Char)) :
    loud (pieces.dropWhile isSilent).tail = (loud pieces).tail := by
  induction pieces with
  | nil => rfl
  | cons piece pieces ih =>
    by_cases hsilent : isSilent piece = true
    · rw [List.dropWhile_cons_of_pos hsilent, ih, loud, loud, List.filter_cons_of_neg (by simp [hsilent])]
    · rw [List.dropWhile_cons_of_neg hsilent, loud, loud, List.filter_cons_of_pos (by simp [hsilent])]
      rfl

theorem dropWhile_of_loud (h : ∀ piece ∈ pieces, isSilent piece = false) :
    pieces.dropWhile isSilent = pieces := by
  cases pieces with
  | nil => rfl
  | cons piece pieces =>
    exact List.dropWhile_cons_of_neg (Bool.not_eq_true _ ▸ h piece List.mem_cons_self)

/-- What is left behind some components are the last pieces, without as many loud ones. -/
theorem exists_repeat_dropComponent (h : ∀ piece ∈ pieces, '/' ∉ piece) (steps : Nat) :
    ∃ rest, rest <:+ pieces ∧ loud rest = (loud pieces).drop steps ∧
      Nat.repeat dropComponent steps (joined pieces) = joined rest := by
  induction steps with
  | zero => exact ⟨pieces, List.suffix_rfl, rfl, rfl⟩
  | succ steps ih =>
    rcases ih with ⟨rest, hsuffix, hloud, hrepeat⟩
    have hrest : ∀ piece ∈ rest, '/' ∉ piece := fun piece hmem => h piece (hsuffix.subset hmem)
    refine ⟨(rest.dropWhile isSilent).tail, ?_, ?_, ?_⟩
    · exact ((List.tail_suffix _).trans (List.dropWhile_suffix isSilent)).trans hsuffix
    · rw [loud_tail_dropWhile, hloud, List.tail_drop]
    · rw [Nat.repeat, hrepeat, dropComponent_joined hrest]

theorem joined_concat (hne : pieces ≠ []) (last : List Char) :
    joined (pieces ++ [last]) = joined pieces ++ '/' :: last := by
  induction pieces with
  | nil => exact absurd rfl hne
  | cons piece pieces ih =>
    by_cases hnil : pieces = []
    · subst hnil
      rw [List.singleton_append, joined_cons piece (List.cons_ne_nil _ _)]
      simp [joined]
    · rw [List.cons_append, joined_cons piece (by simp), ih hnil, joined_cons piece hnil]
      simp

theorem reverse_joined (pieces : List (List Char)) :
    (joined pieces).reverse = joined (pieces.map List.reverse).reverse := by
  induction pieces with
  | nil => rfl
  | cons piece pieces ih =>
    by_cases hnil : pieces = []
    · subst hnil
      simp [joined]
    · rw [joined_cons piece hnil, List.map_cons, List.reverse_cons, joined_concat (by simpa using hnil),
        ← ih]
      simp

theorem isSilent_reverse (piece : List Char) : isSilent piece.reverse = isSilent piece := by
  rw [Bool.eq_iff_iff]
  simp [isSilent, List.reverse_eq_iff]

/-- A body whose pieces are all components has nothing to drop at its end. -/
theorem dropSilentEnd_joined (hslash : ∀ piece ∈ pieces, '/' ∉ piece)
    (hloud : ∀ piece ∈ pieces, isSilent piece = false) :
    dropSilentEnd 0 (joined pieces) = joined pieces := by
  have hturned : ∀ piece ∈ (pieces.map List.reverse).reverse,
      '/' ∉ piece ∧ isSilent piece = false := by
    intro piece hmem
    have horiginal : piece.reverse ∈ pieces := by simpa using hmem
    refine ⟨fun hslashed => hslash _ horiginal (List.mem_reverse.2 hslashed), ?_⟩
    rw [← isSilent_reverse]
    exact hloud _ horiginal
  have hslash' := fun piece hmem => (hturned piece hmem).1
  have hloud' := fun piece hmem => (hturned piece hmem).2
  rw [dropSilentEnd, List.take_zero, List.drop_zero, List.nil_append, reverse_joined,
    dropSilent_joined hslash', dropWhile_of_loud hloud', ← reverse_joined, List.reverse_reverse]

/-- The loud pieces behind a number of components come to the last pieces of a body, if those are
all loud. -/
theorem dropSilent_repeat_joined (hslash : ∀ piece ∈ front ++ back, '/' ∉ piece)
    (hback : ∀ piece ∈ back, isSilent piece = false) (steps : Nat) :
    dropSilent (Nat.repeat dropComponent ((loud front).length + steps) (joined (front ++ back))) =
      joined (back.drop steps) := by
  rcases exists_repeat_dropComponent hslash ((loud front).length + steps) with
    ⟨rest, hsuffix, hloud, hrepeat⟩
  rw [loud_append, loud_eq_self hback, List.drop_length_add_append] at hloud
  have hrest : rest.dropWhile isSilent = back.drop steps := by
    rcases List.suffix_or_suffix_of_suffix hsuffix (List.suffix_append front back) with
      hshort | ⟨between, rfl⟩
    · -- What is left are last pieces of a loud list.
      have hrest_loud : ∀ piece ∈ rest, isSilent piece = false := fun piece hmem =>
        hback piece (hshort.subset hmem)
      rw [dropWhile_of_loud hrest_loud, ← hloud, loud_eq_self hrest_loud]
    · -- Silent pieces in front of the loud list may be left too, and are dropped.
      rw [loud_append, loud_eq_self hback] at hloud
      have hlength := congrArg List.length hloud
      rw [List.length_append, List.length_drop] at hlength
      have hnone : loud between = [] := List.eq_nil_of_length_eq_zero (by omega)
      have hsilent : ∀ piece ∈ between, isSilent piece = true := by
        simpa [loud, List.filter_eq_nil_iff] using hnone
      rw [List.dropWhile_append_of_pos hsilent, dropWhile_of_loud hback, ← hloud, hnone,
        List.nil_append]
  rw [hrepeat, dropSilent_joined fun piece hmem => hslash piece (hsuffix.subset hmem), hrest]

end Pieces

/-! ## Components of texts -/

section Components

variable {cs first : List Char} {rest : List (List Char)}

theorem componentOf_ne_start (piece : List Char) :
    componentOf piece ≠ .root ∧ componentOf piece ≠ .here := by
  unfold componentOf
  split <;> simp

/-- A text starts with a `.` just if that is its first piece. -/
theorem startsHere_iff : startsHere cs = true ↔ ∃ rest, cs.splitOn '/' = ['.'] :: rest := by
  constructor
  · intro h
    unfold startsHere at h
    split at h
    · exact ⟨[], rfl⟩
    · rename_i more
      have hpoint : '/' ∉ ['.'] := by decide
      exact ⟨_, List.splitOn_append_cons_self_of_not_mem hpoint more⟩
    · cases h
  · rintro ⟨rest, hsplit⟩
    have hjoined := joined_splitOn cs
    rw [hsplit] at hjoined
    rcases joined_cases ['.'] rest with halone | ⟨more, hmore⟩
    · rw [← hjoined, halone]
      rfl
    · rw [← hjoined, hmore]
      rfl

/-- A relative text in which nothing is said starts with a `.`. -/
theorem startsHere_of_silent (hne : cs ≠ []) (hhead : cs.head? ≠ some '/')
    (hsilent : loud (cs.splitOn '/') = []) : startsHere cs = true := by
  rcases List.exists_cons_of_ne_nil (List.splitOn_ne_nil '/' cs) with ⟨first, rest, hsplit⟩
  have hfirst : isSilent first = true := by
    rw [hsplit] at hsilent
    simpa [loud] using (List.filter_eq_nil_iff.1 hsilent) first List.mem_cons_self
  have hfirst_eq : first = [] ∨ first = ['.'] := by simpa [isSilent] using hfirst
  rcases hfirst_eq with rfl | rfl
  · -- Before an empty first piece there is the end of the text or a slash.
    have hjoined := joined_splitOn cs
    rw [hsplit] at hjoined
    rcases joined_cases [] rest with halone | ⟨more, hmore⟩
    · exact absurd (hjoined.symm.trans halone) hne
    · exact absurd (by rw [← hjoined, hmore]; rfl) hhead
  · exact startsHere_iff.2 ⟨rest, hsplit⟩

/-- A text whose first piece is a component has no root and no `.` at its start. -/
theorem splitStart_of_loud (h : cs.splitOn '/' = first :: rest) (hloud : isSilent first = false) :
    splitStart cs = (none, cs) := by
  have hhead : cs.head? ≠ some '/' := by
    intro hhead
    rcases List.head?_eq_some_iff.1 hhead with ⟨more, rfl⟩
    have hempty : ('/' :: more).splitOn '/' = [] :: more.splitOn '/' :=
      List.splitOn_append_cons_self_of_not_mem List.not_mem_nil more
    rw [hempty] at h
    rw [← (List.cons.inj h).1] at hloud
    cases hloud
  have hhere : ¬startsHere cs = true := by
    intro hhere
    rcases startsHere_iff.1 hhere with ⟨more, hmore⟩
    rw [hmore] at h
    rw [← (List.cons.inj h).1] at hloud
    cases hloud
  rw [splitStart, if_neg hhead, if_neg hhere]

theorem components_eq (path : String) :
    components path = (splitStart path.toList).1.toList ++
      (loud ((splitStart path.toList).2.splitOn '/')).map componentOf := rfl

/-- A path with any characters has a component. -/
theorem components_ne_nil {path : String} (h : path ≠ "") : components path ≠ [] := by
  intro hnil
  rw [components_eq, List.append_eq_nil_iff, List.map_eq_nil_iff, Option.toList_eq_nil_iff] at hnil
  rcases hnil with ⟨hstart, hsilent⟩
  unfold splitStart at hstart hsilent
  split at hstart
  · cases hstart
  · rename_i hhead
    rw [if_neg hhead] at hsilent
    split at hstart
    · cases hstart
    · rename_i hhere
      rw [if_neg hhere] at hsilent
      exact hhere (startsHere_of_silent (mt String.toList_eq_nil_iff.1 h) hhead hsilent)

/-- A path of plain components has neither the root nor a `.` at its start. -/
theorem bodyComponents_of_components {path : String} {pieces : List (List Char)}
    (h : components path = pieces.map componentOf) :
    isAbsolute path = false ∧ bodyComponents path.toList = pieces.map componentOf := by
  -- A component at the start would be that of a piece.
  have hplain : ∀ component ∈ components path, component ≠ .root ∧ component ≠ .here := by
    intro component hmem
    rw [h] at hmem
    rcases List.mem_map.1 hmem with ⟨piece, -, rfl⟩
    exact componentOf_ne_start piece
  have hhead : path.toList.head? ≠ some '/' := by
    intro hhead
    refine (hplain .root ?_).1 rfl
    rw [components, splitStart, if_pos hhead]
    exact List.mem_cons_self
  have hhere : ¬startsHere path.toList = true := by
    intro hhere
    refine (hplain .here ?_).2 rfl
    rw [components, splitStart, if_neg hhead, if_pos hhere]
    exact List.mem_cons_self
  constructor
  · simpa [isAbsolute] using hhead
  · rw [← h, components, splitStart, if_neg hhead, if_neg hhere]
    rfl

end Components

/-! ## Stripping -/

/-- Names with a slash between them: a relative path. -/
def ofNames (names : List String) : String :=
  String.ofList (joined (names.map String.toList))

/-- A name that is a component of its own. -/
structure IsPlainName (name : String) : Prop extends Path.IsName name where
  ne_here : name ≠ "."

section Stripping

variable {path leading : String} {start? : Option Component} {front back : List (List Char)}
  {steps : Nat} {names : List String}

/-- Behind the components of a leading path stand the last pieces of a path, if those are loud. -/
theorem strip_eq_some (hstart : (splitStart path.toList).1 = start?)
    (hpieces : (splitStart path.toList).2.splitOn '/' = front ++ back)
    (hback : ∀ piece ∈ back, isSilent piece = false) (hsteps : steps ≤ back.length)
    (hlead : components leading =
      start?.toList ++ (loud front ++ back.take steps).map componentOf)
    (hne : components leading ≠ []) :
    strip path leading = some (String.ofList (joined (back.drop steps))) := by
  have hslash : ∀ piece ∈ front ++ back, '/' ∉ piece := by
    intro piece hmem
    rw [← hpieces] at hmem
    exact Path.not_mem_of_mem_splitOn hmem
  have hpath : components path = components leading ++ (back.drop steps).map componentOf := by
    rw [components_eq, hstart, hpieces, hlead, loud_append, loud_eq_self hback, List.append_assoc,
      ← List.map_append, List.append_assoc, List.take_append_drop]
  have hprefix : (components leading).isPrefixOf (components path) = true := by
    rw [List.isPrefixOf_iff_prefix, hpath]
    exact List.prefix_append _ _
  have hcount : (components leading).length - start?.toList.length = (loud front).length + steps := by
    rw [hlead, List.length_append, Nat.add_sub_cancel_left, List.length_map, List.length_append,
      List.length_take_of_le hsteps]
  have hsplit : splitStart path.toList = (start?, joined (front ++ back)) := by
    rw [← hpieces, joined_splitOn, ← hstart]
  have hrest : ∀ piece ∈ back.drop steps, '/' ∉ piece ∧ isSilent piece = false := by
    intro piece hmem
    have hpiece := List.mem_of_mem_drop hmem
    exact ⟨hslash piece (List.mem_append_right front hpiece), hback piece hpiece⟩
  rw [strip]
  dsimp only
  rw [if_neg hne, if_pos hprefix, hsplit]
  dsimp only
  rw [hcount, dropSilent_repeat_joined hslash hback,
    dropSilentEnd_joined (fun piece hmem => (hrest piece hmem).1)
      fun piece hmem => (hrest piece hmem).2]

/-! ### Names -/

theorem IsPlainName.isSilent {name : String} (h : IsPlainName name) :
    isSilent name.toList = false := by
  rw [isSilent_eq_false_iff]
  exact ⟨mt String.toList_eq_nil_iff.1 h.ne_empty, fun heq => h.ne_here (String.toList_inj.1 heq)⟩

theorem toList_ofNames (names : List String) :
    (ofNames names).toList = joined (names.map String.toList) :=
  String.toList_ofList

theorem loud_names (h : ∀ n ∈ names, IsPlainName n) :
    ∀ piece ∈ names.map String.toList, isSilent piece = false := by
  intro piece hmem
  rcases List.mem_map.1 hmem with ⟨n, hn, rfl⟩
  exact (h n hn).isSilent

theorem splitOn_ofNames (h : ∀ n ∈ names, IsPlainName n) (hne : names ≠ []) :
    (ofNames names).toList.splitOn '/' = names.map String.toList := by
  rw [toList_ofNames]
  refine List.splitOn_intercalate '/' ?_ (by simpa using hne)
  intro piece hmem
  rcases List.mem_map.1 hmem with ⟨n, hn, rfl⟩
  exact (h n hn).no_slash

/-- The pieces of a path of names are the names; without names there is one piece, which says
nothing. -/
theorem exists_splitOn_ofNames (h : ∀ n ∈ names, IsPlainName n) :
    ∃ silent, loud silent = [] ∧
      (ofNames names).toList.splitOn '/' = silent ++ names.map String.toList := by
  by_cases hnil : names = []
  · subst hnil
    exact ⟨[[]], rfl, rfl⟩
  · exact ⟨[], rfl, splitOn_ofNames h hnil⟩

theorem splitStart_ofNames (h : ∀ n ∈ names, IsPlainName n) :
    splitStart (ofNames names).toList = (none, (ofNames names).toList) := by
  cases names with
  | nil => rfl
  | cons name rest =>
    exact splitStart_of_loud (splitOn_ofNames h (List.cons_ne_nil _ _))
      (h name List.mem_cons_self).isSilent

theorem components_ofNames (h : ∀ n ∈ names, IsPlainName n) :
    components (ofNames names) = (names.map String.toList).map componentOf := by
  rcases exists_splitOn_ofNames h with ⟨silent, hsilent, hsplit⟩
  rw [components_eq, splitStart_ofNames h, hsplit, loud_append, hsilent,
    loud_eq_self (loud_names h)]
  rfl

/-- Stripping some of the names of a path leaves the others. -/
theorem strip_ofNames (h : ∀ n ∈ names, IsPlainName n) (hsteps : steps ≤ names.length)
    (hlead : components leading = ((names.take steps).map String.toList).map componentOf) :
    strip (ofNames names) leading = some (ofNames (names.drop steps)) := by
  rcases exists_splitOn_ofNames h with ⟨silent, hsilent, hsplit⟩
  by_cases hnil : components leading = []
  · -- Nothing is taken off the front, and there is nothing to drop at the end.
    rw [hnil] at hlead
    have hnone : names.take steps = [] := by simpa using hlead.symm
    have hall : names.drop steps = names := by
      have hboth := List.take_append_drop steps names
      rwa [hnone, List.nil_append] at hboth
    have hslash : ∀ piece ∈ names.map String.toList, '/' ∉ piece := by
      intro piece hmem
      rcases List.mem_map.1 hmem with ⟨n, hn, rfl⟩
      exact (h n hn).no_slash
    rw [strip, hall]
    dsimp only
    rw [if_pos hnil, startLength, splitStart_ofNames h, Nat.sub_self, toList_ofNames,
      dropSilentEnd_joined hslash (loud_names h)]
    rfl
  · have hstart : (splitStart (ofNames names).toList).1 = none := by rw [splitStart_ofNames h]
    have hpieces : (splitStart (ofNames names).toList).2.splitOn '/' =
        silent ++ names.map String.toList := by rw [splitStart_ofNames h, hsplit]
    rw [strip_eq_some hstart hpieces (loud_names h) (by simpa using hsteps) ?_ hnil,
      ← List.map_drop]
    · rfl
    · rw [hlead, hsilent, List.map_take]
      rfl

/-- No path of names lies below `.`, which is a component of its own at the start. -/
theorem strip_ofNames_here (h : ∀ n ∈ names, IsPlainName n) : strip (ofNames names) "." = none := by
  have hhere : components "." = [.here] := by decide
  have hother : ([.here] : List Component).isPrefixOf (components (ofNames names)) = false := by
    rw [components_ofNames h]
    cases names with
    | nil => rfl
    | cons name rest =>
      rw [List.map_cons, List.map_cons, List.isPrefixOf, beq_false_of_ne]
      · rfl
      · exact (componentOf_ne_start name.toList).2.symm
  rw [strip]
  dsimp only
  rw [hhere, if_neg (List.cons_ne_nil _ _), hother]
  rfl

/-! ### Directories in front -/

theorem startsHere_append_slash (init rest : List Char) :
    startsHere (init ++ '/' :: rest) = startsHere (init ++ ['/']) := by
  rcases init with _ | ⟨c, _ | ⟨d, more⟩⟩
  · rfl
  · by_cases hc : c = '.'
    · subst hc
      rfl
    · simp [startsHere, hc]
  · by_cases hc : c = '.'
    · by_cases hd : d = '/'
      · subst hc hd
        rfl
      · simp [startsHere, hd]
    · simp [startsHere, hc]

/-- A text that ends in a slash adds pieces of its own to those of what follows. -/
theorem exists_pieces_append (dir : List Char) (h : dir.getLast? = some '/') :
    ∃ start? front, ∀ rest, (splitStart (dir ++ rest)).1 = start? ∧
      (splitStart (dir ++ rest)).2.splitOn '/' = front ++ rest.splitOn '/' := by
  rcases List.getLast?_eq_some_iff.1 h with ⟨init, rfl⟩
  cases init with
  | nil => exact ⟨some .root, [], fun rest => ⟨rfl, rfl⟩⟩
  | cons c more =>
    have hbehind : ∀ rest, ((c :: more) ++ ['/']) ++ rest = c :: (more ++ '/' :: rest) := by simp
    have hsplit : ∀ before rest : List Char, (before ++ '/' :: rest).splitOn '/' =
        before.splitOn '/' ++ rest.splitOn '/' := List.splitOn_append_cons_self
    by_cases hroot : c = '/'
    · refine ⟨some .root, more.splitOn '/', fun rest => ?_⟩
      rw [hbehind, splitStart, if_pos (by rw [hroot]; rfl)]
      exact ⟨rfl, hsplit more rest⟩
    · have hhead : ∀ rest : List Char, ¬(c :: rest).head? = some '/' := by simpa using hroot
      have hstart : ∀ rest, startsHere (c :: (more ++ '/' :: rest)) =
          startsHere (c :: (more ++ ['/'])) := startsHere_append_slash (c :: more)
      by_cases hhere : startsHere (c :: (more ++ ['/'])) = true
      · refine ⟨some .here, more.splitOn '/', fun rest => ?_⟩
        rw [hbehind, splitStart, if_neg (hhead _), if_pos ((hstart rest).trans hhere)]
        exact ⟨rfl, hsplit more rest⟩
      · refine ⟨none, (c :: more).splitOn '/', fun rest => ?_⟩
        rw [hbehind, splitStart, if_neg (hhead _), if_neg (by rwa [hstart rest])]
        exact ⟨rfl, hsplit (c :: more) rest⟩

/-- A directory in front of a relative path adds pieces of its own to those of the path. -/
theorem exists_pieces_join {base : String} (hbase : base ≠ "") :
    ∃ start? front, ∀ path, isAbsolute path = false →
      (splitStart (join base path).toList).1 = start? ∧
      (splitStart (join base path).toList).2.splitOn '/' = front ++ path.toList.splitOn '/' := by
  rcases List.eq_nil_or_concat' base.toList with hnil | ⟨init, last, hlast⟩
  · exact absurd (String.toList_eq_nil_iff.1 hnil) hbase
  by_cases hslash : last = '/'
  · rcases exists_pieces_append base.toList (by rw [hlast, hslash]; simp) with
      ⟨start?, front, hpieces⟩
    refine ⟨start?, front, fun path hrelative => ?_⟩
    have hjoin : (join base path).toList = base.toList ++ path.toList := by
      simp [join, hrelative, hlast, hslash]
    rw [hjoin]
    exact hpieces path.toList
  · rcases exists_pieces_append (base.toList ++ ['/']) (by simp) with
      ⟨start?, front, hpieces⟩
    refine ⟨start?, front, fun path hrelative => ?_⟩
    have hjoin : (join base path).toList = (base.toList ++ ['/']) ++ path.toList := by
      simp [join, hrelative, hlast, hslash]
    rw [hjoin]
    exact hpieces path.toList

theorem isAbsolute_ofNames (h : ∀ n ∈ names, IsPlainName n) : isAbsolute (ofNames names) = false :=
  (bodyComponents_of_components (components_ofNames h)).1

/-- Where paths are joined to makes no difference to what is left of one below the other. -/
theorem strip_join {base : String} (hbase : base ≠ "") (h : ∀ n ∈ names, IsPlainName n)
    (hsteps : steps ≤ names.length) (hrelative : isAbsolute leading = false)
    (hlead : bodyComponents leading.toList =
      ((names.take steps).map String.toList).map componentOf) :
    strip (join base (ofNames names)) (join base leading) = some (ofNames (names.drop steps)) := by
  rcases exists_pieces_join hbase with ⟨start?, front, hjoin⟩
  rcases exists_splitOn_ofNames h with ⟨silent, hsilent, hsplit⟩
  rcases hjoin (ofNames names) (isAbsolute_ofNames h) with ⟨hstart, hpieces⟩
  rcases hjoin leading hrelative with ⟨hstart', hpieces'⟩
  rw [hsplit, ← List.append_assoc] at hpieces
  have hlead' : components (join base leading) = start?.toList ++
      (loud (front ++ silent) ++ (names.map String.toList).take steps).map componentOf := by
    rw [components_eq, hstart', hpieces', loud_append, loud_append, hsilent, List.append_nil,
      List.map_append, List.map_append, ← List.map_take, ← hlead]
    rfl
  rw [strip_eq_some hstart hpieces (loud_names h) (by simpa using hsteps) hlead'
    (components_ne_nil fun hempty => hbase (join_eq_empty_iff.1 hempty).1), ← List.map_drop]
  rfl

end Stripping

end Disk
end BuildTree
