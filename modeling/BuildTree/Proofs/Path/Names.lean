import BuildTree.Path.Basic
import Mathlib

/-!
# Names — tree paths as lists of names

A well-formed path is the root or a list of names with a slash in front of each, and the list is
unique.  Seen this way, the functions on paths are functions on lists: the parent drops the last
name, `join` adds one, mounting appends, and looking from a mount point takes a leading part off.
The lemmas below carry each of them over, so that nothing built on paths has to look at characters.
-/

namespace BuildTree
namespace Path

/-- A name that can stand between two slashes of a path. -/
structure IsName (name : String) : Prop where
  ne_empty : name ≠ ""
  ne_up : name ≠ ".."
  no_slash : '/' ∉ name.toList

/-- Names with a slash in front of each. -/
def spelled (names : List String) : List Char :=
  names.flatMap fun name => '/' :: name.toList

/-- Whatever stands behind a name, no slash stands in front. -/
theorem IsName.head?_append_ne {name : String} (h : IsName name) (rest : List Char) :
    (name.toList ++ rest).head? ≠ some '/' := by
  rcases List.exists_cons_of_ne_nil (mt String.toList_eq_nil_iff.1 h.ne_empty) with ⟨c, cs, hcs⟩
  intro hhead
  rw [hcs] at hhead
  exact h.no_slash (by rw [hcs, Option.some.inj hhead]; exact List.mem_cons_self)

theorem dropWhile_slash_eq_self {cs : List Char} (h : cs.head? ≠ some '/') :
    cs.dropWhile (· == '/') = cs := by
  cases cs with
  | nil => rfl
  | cons c cs =>
    have hc : c ≠ '/' := fun heq => h (by rw [heq]; rfl)
    simp [hc]

/-- The path that leads from the root through names. -/
def ofNames (names : List String) : String :=
  if names = [] then root else String.ofList (spelled names)

variable {names : List String}

@[simp] theorem spelled_nil : spelled [] = [] := rfl

@[simp] theorem spelled_cons (name : String) (names : List String) :
    spelled (name :: names) = '/' :: (name.toList ++ spelled names) := by
  simp [spelled]

@[simp] theorem spelled_append (names more : List String) :
    spelled (names ++ more) = spelled names ++ spelled more := by
  simp [spelled]

@[simp] theorem ofNames_nil : ofNames [] = root := rfl

theorem toList_ofNames (h : names ≠ []) : (ofNames names).toList = spelled names := by
  simp [ofNames, h]

/-! ## The grammar of paths -/

theorem segmentError?_eq_none_iff (path : String) (segments : List String) :
    segmentError? path segments = none ↔ ∀ segment ∈ segments, segment ≠ "" ∧ segment ≠ ".." := by
  induction segments with
  | nil => simp [segmentError?]
  | cons segment rest ih =>
    by_cases hempty : segment = ""
    · simp [segmentError?, hempty]
    · by_cases hup : segment = ".."
      · simp [segmentError?, hup]
      · simp [segmentError?, hempty, hup, ih]

theorem splitOn_spelled {name : String} (h : ∀ n ∈ name :: names, '/' ∉ n.toList) :
    (name.toList ++ spelled names).splitOn '/' = (name :: names).map String.toList := by
  induction names generalizing name with
  | nil => simpa using List.splitOn_eq_singleton (h name (by simp))
  | cons next rest ih =>
    -- The first slash is the one in front of the next name.
    rw [spelled_cons, List.splitOn_append_cons_self_of_not_mem (h name (by simp))]
    rw [ih fun n hn => h n (List.mem_cons_of_mem _ hn)]
    rfl

theorem segments_ofNames (h : ∀ n ∈ names, '/' ∉ n.toList) (hne : names ≠ []) :
    segments (ofNames names) = names := by
  cases names with
  | nil => exact absurd rfl hne
  | cons name rest =>
    rw [segments, toList_ofNames hne, spelled_cons, List.drop_one, List.tail_cons,
      splitOn_spelled h, List.map_map]
    exact (List.map_congr_left fun n _ => String.ofList_toList).trans (List.map_id _)

/-- The pieces between slashes, put behind slashes again. -/
theorem spelled_splitOn (cs : List Char) :
    spelled ((cs.splitOn '/').map String.ofList) = '/' :: cs := by
  have hjoin : ∀ pieces : List (List Char), pieces ≠ [] →
      spelled (pieces.map String.ofList) = '/' :: ['/'].intercalate pieces := by
    intro pieces hne
    induction pieces with
    | nil => exact absurd rfl hne
    | cons piece rest ih =>
      cases rest with
      | nil => simp
      | cons next more =>
        rw [List.map_cons, spelled_cons, ih (by simp)]
        simp
  rw [hjoin _ (List.splitOn_ne_nil '/' cs), List.intercalate_splitOn]

theorem not_mem_of_mem_splitOn {cs piece : List Char} (h : piece ∈ cs.splitOn '/') :
    '/' ∉ piece := by
  induction cs generalizing piece with
  | nil => simp_all
  | cons c cs ih =>
    rw [List.splitOn_cons_eq_if_modifyHead] at h
    by_cases hc : c = '/'
    · simp only [hc, beq_self_eq_true, if_true, List.mem_cons] at h
      rcases h with rfl | h
      · simp
      · exact ih h
    · -- Any other character joins the first piece of the rest.
      rcases List.exists_cons_of_ne_nil (List.splitOn_ne_nil '/' cs) with ⟨first, rest, hsplit⟩
      simp only [beq_iff_eq, hc, if_false, hsplit, List.modifyHead_cons, List.mem_cons] at h
      rcases h with rfl | h
      · have hfirst : '/' ∉ first := ih (by simp [hsplit])
        simp [hfirst, Ne.symm hc]
      · exact ih (by simp [hsplit, h])

/-! ### Segments -/

section Segments

variable {text segment : String}

theorem segments_ne_nil (text : String) : segments text ≠ [] := by
  simp [segments]

theorem no_slash_of_mem_segments (h : segment ∈ segments text) : '/' ∉ segment.toList := by
  rcases List.mem_map.1 h with ⟨piece, hpiece, rfl⟩
  rw [String.toList_ofList]
  exact not_mem_of_mem_splitOn hpiece

theorem spelled_segments (hfirst : text.toList.head? = some '/') :
    spelled (segments text) = text.toList := by
  rcases List.head?_eq_some_iff.1 hfirst with ⟨cs, hcs⟩
  rw [segments, spelled_splitOn, hcs, List.drop_one, List.tail_cons]

end Segments

/-- The last character of a spelled path belongs to its last name. -/
theorem getLast?_spelled_ne (h : ∀ n ∈ names, IsName n) : (spelled names).getLast? ≠ some '/' := by
  rcases List.eq_nil_or_concat' names with rfl | ⟨before, last, rfl⟩
  · simp
  · have hname := h last (by simp)
    have htext : last.toList ≠ [] := by simpa using hname.ne_empty
    rw [spelled_append, spelled_cons, spelled_nil, List.append_nil, List.getLast?_append,
      List.getLast?_cons, List.getLast?_eq_getLast_of_ne_nil htext]
    intro hslash
    have heq : last.toList.getLast htext = '/' := by simpa using hslash
    exact hname.no_slash (heq ▸ List.getLast_mem htext)

/-- Every list of names spells a well-formed path. -/
theorem error?_ofNames (h : ∀ n ∈ names, IsName n) : error? (ofNames names) = none := by
  cases names with
  | nil => decide
  | cons name rest =>
    have hne : name :: rest ≠ [] := by simp
    have hslash : ∀ n ∈ name :: rest, '/' ∉ n.toList := fun n hn => (h n hn).no_slash
    have hsegments : segmentError? (ofNames (name :: rest)) (segments (ofNames (name :: rest))) =
        none := by
      rw [segments_ofNames hslash hne, segmentError?_eq_none_iff]
      exact fun n hn => ⟨(h n hn).ne_empty, (h n hn).ne_up⟩
    have hlast : (ofNames (name :: rest)).toList.getLast? ≠ some '/' := by
      rw [toList_ofNames hne]
      exact getLast?_spelled_ne h
    have habs : isAbsolute (ofNames (name :: rest)) = true := by
      simp [isAbsolute, toList_ofNames hne]
    simp [error?, habs, hlast, hsegments]

/-- Every well-formed path is spelled by names. -/
theorem exists_names {path : String} (h : error? path = none) :
    ∃ names, (∀ n ∈ names, IsName n) ∧ ofNames names = path := by
  by_cases hroot : path = root
  · exact ⟨[], by simp, hroot.symm⟩
  · -- The other checks leave an absolute path whose segments are names.
    have habs : path.toList.head? = some '/' := by
      by_contra habs
      simp [error?, isAbsolute, habs] at h
    have hsegments : segmentError? path (segments path) = none := by
      by_cases hlast : path.toList.getLast? = some '/'
      · simp [error?, isAbsolute, habs, hroot, hlast] at h
      · simpa [error?, isAbsolute, habs, hroot, hlast] using h
    refine ⟨segments path, ?_, ?_⟩
    · intro n hn
      rcases (segmentError?_eq_none_iff _ _).1 hsegments n hn with ⟨hempty, hup⟩
      exact ⟨hempty, hup, no_slash_of_mem_segments hn⟩
    · apply String.toList_inj.1
      rw [toList_ofNames (segments_ne_nil path), spelled_segments habs]

/-- One path is spelled by one list of names only. -/
theorem ofNames_inj {more : List String} (hnames : ∀ n ∈ names, IsName n)
    (hmore : ∀ n ∈ more, IsName n) : ofNames names = ofNames more ↔ names = more := by
  -- A name is not empty, so only the empty list spells the root.
  have hroot : ∀ {ns : List String}, (∀ n ∈ ns, IsName n) → ofNames ns = root → ns = [] := by
    intro ns hns heq
    by_contra hne
    rcases List.exists_cons_of_ne_nil hne with ⟨name, rest, rfl⟩
    have hspelled : spelled (name :: rest) = ['/'] := by
      rw [← toList_ofNames hne, heq]
      rfl
    have hempty : name = "" ∧ spelled rest = [] := by simpa using hspelled
    exact (hns name (by simp)).ne_empty hempty.1
  constructor
  · intro heq
    by_cases hnil : names = []
    · subst hnil
      exact (hroot hmore heq.symm).symm
    · by_cases hmnil : more = []
      · subst hmnil
        exact hroot hnames heq
      · rw [← segments_ofNames (fun n hn => (hnames n hn).no_slash) hnil, heq,
          segments_ofNames (fun n hn => (hmore n hn).no_slash) hmnil]
  · rintro rfl
    rfl

theorem ofNames_eq_root_iff (h : ∀ n ∈ names, IsName n) : ofNames names = root ↔ names = [] :=
  ofNames_inj h (List.forall_mem_nil IsName)

/-- The well-formed paths other than the root are those of at least one name. -/
theorem exists_names_iff {path : String} : error? path = none ∧ path ≠ root ↔
    ∃ names, names ≠ [] ∧ (∀ n ∈ names, IsName n) ∧ path = ofNames names := by
  constructor
  · rintro ⟨hvalid, hroot⟩
    rcases exists_names hvalid with ⟨names, hnames, rfl⟩
    exact ⟨names, mt (ofNames_eq_root_iff hnames).2 hroot, hnames, rfl⟩
  · rintro ⟨names, hne, hnames, rfl⟩
    exact ⟨error?_ofNames hnames, mt (ofNames_eq_root_iff hnames).1 hne⟩

theorem isAbsolute_ofNames (names : List String) : isAbsolute (ofNames names) = true := by
  cases names with
  | nil => rfl
  | cons name rest => simp [isAbsolute, toList_ofNames]

/-! ## Parents and children -/

theorem ne_slash_of_mem_reverse {name : String} (h : '/' ∉ name.toList) :
    ∀ c ∈ name.toList.reverse, (c != '/') = true := by
  intro c hc
  have hne : c ≠ '/' := by
    intro heq
    exact h (heq ▸ List.mem_reverse.1 hc)
  simpa using hne

theorem takeWhile_reverse_spelled {name : String} (h : '/' ∉ name.toList) :
    (spelled (names ++ [name])).reverse.takeWhile (· != '/') = name.toList.reverse := by
  simp [List.takeWhile_append_of_pos (ne_slash_of_mem_reverse h)]

theorem dropWhile_reverse_spelled {name : String} (h : '/' ∉ name.toList) :
    (spelled (names ++ [name])).reverse.dropWhile (· != '/') = '/' :: (spelled names).reverse := by
  simp [List.dropWhile_append_of_pos (ne_slash_of_mem_reverse h)]

theorem parent_ofNames_append {name : String} (h : '/' ∉ name.toList) :
    parent (ofNames (names ++ [name])) = ofNames names := by
  rw [parent, toList_ofNames (by simp), dropWhile_reverse_spelled h]
  cases names with
  | nil => rfl
  | cons first rest => simp [ofNames]

theorem parent_root : parent root = root := by decide

theorem basename_ofNames_append {name : String} (h : '/' ∉ name.toList) :
    basename (ofNames (names ++ [name])) = name := by
  rw [basename, toList_ofNames (by simp), takeWhile_reverse_spelled h]
  simp

theorem join_ofNames {name : String} (h : ∀ n ∈ names, IsName n) :
    join (ofNames names) name = ofNames (names ++ [name]) := by
  apply String.toList_inj.1
  rw [toList_ofNames (by simp), join]
  by_cases hnil : names = []
  · subst hnil
    simp
  · have hne : ofNames names ≠ root := fun heq => hnil ((ofNames_eq_root_iff h).1 heq)
    simp [hne, toList_ofNames hnil]

/-- Climbing from a path passes through its leading parts and ends at the root. -/
theorem parent_iterate_ofNames (h : ∀ n ∈ names, IsName n) (steps : Nat) :
    parent^[steps] (ofNames names) = ofNames (names.take (names.length - steps)) := by
  induction steps with
  | zero => simp
  | succ steps ih =>
    rw [Function.iterate_succ_apply', ih]
    rcases Nat.lt_or_ge steps names.length with hlt | hge
    · obtain ⟨k, hk⟩ : ∃ k, names.length - steps = k + 1 := ⟨names.length - steps - 1, by omega⟩
      have hlen : k < names.length := by omega
      have hpred : names.length - (steps + 1) = k := by omega
      rw [hk, hpred, List.take_succ_eq_append_getElem hlen]
      exact parent_ofNames_append (h _ (List.getElem_mem hlen)).no_slash
    · -- The climb has reached the root and stays there.
      have hzero : names.length - steps = 0 := by omega
      have hzero' : names.length - (steps + 1) = 0 := by omega
      simp [hzero, hzero', parent_root]

/-! ## Mounting -/

theorem mount_ofNames {at' : List String} (hat : ∀ n ∈ at', IsName n)
    (h : ∀ n ∈ names, IsName n) :
    mount (ofNames at') (ofNames names) = ofNames (at' ++ names) := by
  simp only [mount, ofNames_eq_root_iff hat, ofNames_eq_root_iff h]
  by_cases hnil : names = []
  · simp [hnil]
  · by_cases hanil : at' = []
    · simp [hnil, hanil]
    · apply String.toList_inj.1
      simp [hnil, hanil, toList_ofNames]

/-- Two names without slashes are told apart by what is in front of the next slash. -/
theorem append_inj_of_slash {first second : List Char} {rest more : List Char}
    (hfirst : '/' ∉ first) (hsecond : '/' ∉ second)
    (hrest : rest = [] ∨ rest.head? = some '/') (hmore : more = [] ∨ more.head? = some '/')
    (heq : first ++ rest = second ++ more) : first = second ∧ rest = more := by
  induction first generalizing second with
  | nil =>
    cases second with
    | nil => exact ⟨rfl, by simpa using heq⟩
    | cons c second =>
      -- What follows the shorter name would start with a character of the longer one.
      rcases hrest with rfl | hrest
      · simp at heq
      · have : c = '/' := by
          have hhead : rest = c :: (second ++ more) := by simpa using heq
          simpa [hhead] using hrest
        simp [this] at hsecond
  | cons c first ih =>
    cases second with
    | nil =>
      rcases hmore with rfl | hmore
      · simp at heq
      · have : c = '/' := by
          have hhead : c :: (first ++ rest) = more := by simpa using heq
          simpa [← hhead] using hmore
        simp [this] at hfirst
    | cons d second =>
      simp only [List.cons_append, List.cons.injEq] at heq
      rcases heq with ⟨rfl, heq⟩
      simp only [List.mem_cons, not_or] at hfirst hsecond
      rcases ih hfirst.2 hsecond.2 heq with ⟨rfl, hrest⟩
      exact ⟨rfl, hrest⟩

theorem spelled_head (names : List String) :
    spelled names = [] ∨ (spelled names).head? = some '/' := by
  cases names <;> simp

/-- A spelled path starts with another one, up to a slash, only if its names do. -/
theorem exists_of_spelled_eq_append {above : List String} {rest : List Char}
    (h : ∀ n ∈ names, IsName n) (habove : ∀ n ∈ above, IsName n)
    (hrest : rest = [] ∨ rest.head? = some '/') (heq : spelled names = spelled above ++ rest) :
    ∃ below, names = above ++ below ∧ rest = spelled below := by
  induction above generalizing names with
  | nil => exact ⟨names, rfl, by simpa using heq.symm⟩
  | cons name above ih =>
    cases names with
    | nil => simp at heq
    | cons first names =>
      simp only [spelled_cons, List.cons_append, List.cons.injEq, true_and, List.append_assoc]
        at heq
      have htail : spelled above ++ rest = [] ∨ (spelled above ++ rest).head? = some '/' := by
        cases above with
        | nil => simpa using hrest
        | cons => simp
      obtain ⟨hname, htails⟩ := append_inj_of_slash (h first (by simp)).no_slash
        (habove name (by simp)).no_slash (spelled_head names) htail heq
      obtain ⟨below, rfl, hbelow⟩ := ih (fun n hn => h n (List.mem_cons_of_mem _ hn))
        (fun n hn => habove n (List.mem_cons_of_mem _ hn)) htails
      exact ⟨below, by rw [String.toList_inj.1 hname]; rfl, hbelow⟩

theorem isPrefixOf?_eq_some_iff {first second rest : List Char} :
    first.isPrefixOf? second = some rest ↔ second = first ++ rest := by
  induction first generalizing second with
  | nil => simp [List.isPrefixOf?, eq_comm]
  | cons c first ih =>
    cases second with
    | nil => simp [List.isPrefixOf?]
    | cons d second =>
      by_cases hcd : c = d
      · simp [List.isPrefixOf?, hcd, ih]
      · simp [List.isPrefixOf?, hcd, Ne.symm hcd]

/-- What is seen of a path from a mount point other than the root: what follows the mount point, if
that is nothing or starts with a slash. -/
theorem seenFrom?_eq_some_iff {path mountPoint seen : String} (hne : mountPoint ≠ root) :
    seenFrom? path mountPoint = some seen ↔
      ∃ rest, path.toList = mountPoint.toList ++ rest ∧
        (rest = [] ∧ seen = root ∨ rest.head? = some '/' ∧ seen = String.ofList rest) := by
  have hdef : ∀ rest, mountPoint.toList.isPrefixOf? path.toList = some rest →
      (seenFrom? path mountPoint = some seen ↔
        (rest = [] ∧ seen = root ∨ rest.head? = some '/' ∧ seen = String.ofList rest)) := by
    intro rest hrest
    simp only [seenFrom?, hne, if_false, hrest]
    cases rest with
    | nil => simp [eq_comm]
    | cons c rest =>
      by_cases hc : c = '/' <;> simp [hc, eq_comm]
  constructor
  · intro hseen
    cases hprefix : mountPoint.toList.isPrefixOf? path.toList with
    | none => simp [seenFrom?, hne, hprefix] at hseen
    | some rest => exact ⟨rest, isPrefixOf?_eq_some_iff.1 hprefix, (hdef rest hprefix).1 hseen⟩
  · rintro ⟨rest, hpath, hrest⟩
    exact (hdef rest (isPrefixOf?_eq_some_iff.2 hpath)).2 hrest

/-- Looking from a mount point takes its names off the front. -/
theorem seenFrom?_ofNames_eq_some_iff {above : List String} {seen : String}
    (h : ∀ n ∈ names, IsName n) (habove : ∀ n ∈ above, IsName n) :
    seenFrom? (ofNames names) (ofNames above) = some seen ↔
      ∃ below, names = above ++ below ∧ seen = ofNames below := by
  by_cases hnil : above = []
  · subst hnil
    simp [seenFrom?, eq_comm]
  have hne : ofNames above ≠ root := fun heq => hnil ((ofNames_eq_root_iff habove).1 heq)
  rw [seenFrom?_eq_some_iff hne, toList_ofNames hnil]
  constructor
  · rintro ⟨rest, hpath, hrest⟩
    -- The root is not below another path, so the path has names.
    have hnames : names ≠ [] := by
      rintro rfl
      rcases List.exists_cons_of_ne_nil hnil with ⟨name, others, rfl⟩
      have hroot : ['/'] = spelled (name :: others) ++ rest := hpath
      have hempty : name = "" ∧ spelled others = [] ∧ rest = [] := by simpa using hroot
      exact (habove name (by simp)).ne_empty hempty.1
    rw [toList_ofNames hnames] at hpath
    obtain ⟨below, rfl, rfl⟩ :=
      exists_of_spelled_eq_append h habove (hrest.imp And.left And.left) hpath
    refine ⟨below, rfl, ?_⟩
    rcases hrest with ⟨hempty, rfl⟩ | ⟨hslash, rfl⟩
    · cases below with
      | nil => rfl
      | cons => simp at hempty
    · have hbelow : below ≠ [] := by
        rintro rfl
        simp at hslash
      simp [ofNames, hbelow]
  · rintro ⟨below, rfl, rfl⟩
    have hnames : above ++ below ≠ [] := by simp [hnil]
    refine ⟨spelled below, by rw [toList_ofNames hnames, spelled_append], ?_⟩
    cases below with
    | nil => exact Or.inl ⟨rfl, rfl⟩
    | cons name rest => exact Or.inr ⟨by simp, by simp [ofNames]⟩

/-! ## Well-formed paths -/

section WellFormed

variable {path mountPoint inner : String}

theorem error?_root : error? root = none := by decide

/-- Only the root ends with a slash. -/
theorem error?_of_last_slash (hroot : path ≠ root) (hlast : path.toList.getLast? = some '/') :
    error? path ≠ none := by
  cases habs : isAbsolute path <;> simp [error?, habs, hroot, hlast]

theorem isAbsolute_of_error? (h : error? path = none) : isAbsolute path = true := by
  rcases exists_names h with ⟨names, -, rfl⟩
  exact isAbsolute_ofNames names

/-- What is seen of an absolute name from a mount point is absolute. -/
theorem isAbsolute_of_seenFrom? {path mountPoint below : String} (hpath : isAbsolute path = true)
    (h : seenFrom? path mountPoint = some below) : isAbsolute below = true := by
  unfold seenFrom? at h
  split at h
  · cases h
    exact hpath
  · split at h
    · cases h
    · cases h
      rfl
    · rename_i c rest _
      split at h
      · -- What is left starts with the slash at which the mount point ended.
        rename_i hslash
        cases h
        subst hslash
        rw [isAbsolute, String.toList_ofList]
        rfl
      · cases h

theorem error?_mount (hmount : error? mountPoint = none) (hinner : error? inner = none) :
    error? (mount mountPoint inner) = none := by
  rcases exists_names hmount with ⟨above, habove, rfl⟩
  rcases exists_names hinner with ⟨below, hbelow, rfl⟩
  rw [mount_ofNames habove hbelow]
  exact error?_ofNames (List.forall_mem_append.2 ⟨habove, hbelow⟩)

/-- Looking from a mount point undoes mounting there. -/
theorem seenFrom?_eq_some_iff_mount (hpath : error? path = none)
    (hmount : error? mountPoint = none) :
    seenFrom? path mountPoint = some inner ↔
      error? inner = none ∧ mount mountPoint inner = path := by
  rcases exists_names hpath with ⟨names, hnames, rfl⟩
  rcases exists_names hmount with ⟨above, habove, rfl⟩
  rw [seenFrom?_ofNames_eq_some_iff hnames habove]
  constructor
  · rintro ⟨below, rfl, rfl⟩
    have hbelow : ∀ n ∈ below, IsName n := fun n hn => hnames n (List.mem_append_right above hn)
    exact ⟨error?_ofNames hbelow, mount_ofNames habove hbelow⟩
  · rintro ⟨hinner, hmounted⟩
    rcases exists_names hinner with ⟨below, hbelow, rfl⟩
    rw [mount_ofNames habove hbelow] at hmounted
    have hboth : ∀ n ∈ above ++ below, IsName n := List.forall_mem_append.2 ⟨habove, hbelow⟩
    exact ⟨below, ((ofNames_inj hboth hnames).1 hmounted).symm, rfl⟩

/-- What is mounted below a mount point is seen from there as it was. -/
theorem seenFrom?_mount (hmount : error? mountPoint = none) (hinner : error? inner = none) :
    seenFrom? (mount mountPoint inner) mountPoint = some inner :=
  (seenFrom?_eq_some_iff_mount (error?_mount hmount hinner) hmount).2 ⟨hinner, rfl⟩

theorem mount_inj {other : String} (hmount : error? mountPoint = none)
    (hinner : error? inner = none) (hother : error? other = none)
    (h : mount mountPoint inner = mount mountPoint other) : inner = other := by
  have hseen := seenFrom?_mount hmount hinner
  rw [h, seenFrom?_mount hmount hother] at hseen
  exact (Option.some.inj hseen).symm

/-! ## Children -/

theorem error?_join {dir name : String} (hdir : error? dir = none) (hname : IsName name) :
    error? (join dir name) = none := by
  rcases exists_names hdir with ⟨names, hnames, rfl⟩
  rw [join_ofNames hnames]
  exact error?_ofNames (List.forall_mem_append.2 ⟨hnames, List.forall_mem_singleton.2 hname⟩)

theorem join_ne_root {dir name : String} (hdir : error? dir = none) (hname : IsName name) :
    join dir name ≠ root := by
  rcases exists_names hdir with ⟨names, hnames, rfl⟩
  have hchild := error?_join hdir hname
  rw [join_ofNames hnames] at hchild ⊢
  intro heq
  -- The child is spelled by a slash and at least one more character.
  have htext := congrArg String.toList heq
  rw [toList_ofNames (by simp), spelled_append] at htext
  have hlength := congrArg List.length htext
  have hempty : name.toList ≠ [] := by simpa using hname.ne_empty
  have hpos := List.length_pos_iff.2 hempty
  simp [root] at hlength
  omega

theorem parent_join {dir name : String} (hdir : error? dir = none) (hname : IsName name) :
    parent (join dir name) = dir := by
  rcases exists_names hdir with ⟨names, hnames, rfl⟩
  rw [join_ofNames hnames, parent_ofNames_append hname.no_slash]

theorem basename_join {dir name : String} (hdir : error? dir = none) (hname : IsName name) :
    basename (join dir name) = name := by
  rcases exists_names hdir with ⟨names, hnames, rfl⟩
  rw [join_ofNames hnames, basename_ofNames_append hname.no_slash]

/-- Every path but the root is a name in its parent. -/
theorem join_parent_basename (hpath : error? path = none) (hroot : path ≠ root) :
    IsName (basename path) ∧ join (parent path) (basename path) = path := by
  rcases exists_names hpath with ⟨names, hnames, rfl⟩
  rcases List.eq_nil_or_concat' names with rfl | ⟨before, last, rfl⟩
  · exact absurd ofNames_nil hroot
  · have hlast : IsName last := hnames last (by simp)
    have hbefore : ∀ n ∈ before, IsName n := fun n hn => hnames n (List.mem_append_left _ hn)
    rw [parent_ofNames_append hlast.no_slash, basename_ofNames_append hlast.no_slash]
    exact ⟨hlast, join_ofNames hbefore⟩

/-- Mounting keeps names in their directories. -/
theorem mount_join {name : String} (hmount : error? mountPoint = none)
    (hinner : error? inner = none) (hname : IsName name) :
    mount mountPoint (join inner name) = join (mount mountPoint inner) name := by
  rcases exists_names hmount with ⟨above, habove, rfl⟩
  rcases exists_names hinner with ⟨below, hbelow, rfl⟩
  have hboth : ∀ n ∈ above ++ below, IsName n := List.forall_mem_append.2 ⟨habove, hbelow⟩
  have hchild : ∀ n ∈ below ++ [name], IsName n :=
    List.forall_mem_append.2 ⟨hbelow, List.forall_mem_singleton.2 hname⟩
  rw [join_ofNames hbelow, mount_ofNames habove hchild, mount_ofNames habove hbelow,
    join_ofNames hboth, List.append_assoc]

theorem mount_root (mountPoint : String) : mount mountPoint root = mountPoint := by
  simp [mount]

end WellFormed

end Path
end BuildTree
