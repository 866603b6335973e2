import BuildTree.Proofs.Path.Names

/-!
# The grammar of paths — what validation accepts and what it reports

An absolute text is cut at its slashes into segments in one way only.  A path is the root or a text
whose segments are names.  Validation accepts the paths, and of any other text it reports the first
fault: no slash in front, a slash at the end, or else the first segment that is empty or `..`.
-/

namespace BuildTree
namespace Path

/-- Segments that make up a text: at least one, no slash in them, and a slash in front of each. -/
structure IsCut (text : String) (segments : List String) : Prop where
  ne_nil : segments ≠ []
  no_slash : ∀ segment ∈ segments, '/' ∉ segment.toList
  toList_eq : text.toList = spelled segments

/-- The texts of the grammar: the root, and what names make up. -/
def IsPath (text : String) : Prop :=
  text = root ∨ ∃ names, IsCut text names ∧ ∀ name ∈ names, IsName name

/-- The first fault of a text that is no path. -/
inductive HasFault (text : String) : PathError → Prop
  | notAbsolute (hfirst : text.toList.head? ≠ some '/') : HasFault text (.notAbsolute text)
  | trailingSlash (hfirst : text.toList.head? = some '/') (hroot : text ≠ root)
      (hlast : text.toList.getLast? = some '/') : HasFault text (.trailingSlash text)
  | emptySegment {before after : List String} (hlast : text.toList.getLast? ≠ some '/')
      (hcut : IsCut text (before ++ "" :: after)) (hbefore : ∀ name ∈ before, IsName name) :
      HasFault text (.emptySegment text)
  | parentSegment {before after : List String} (hlast : text.toList.getLast? ≠ some '/')
      (hcut : IsCut text (before ++ ".." :: after)) (hbefore : ∀ name ∈ before, IsName name) :
      HasFault text (.parentSegment text)

section Cuts

variable {text : String} {cut names : List String}

theorem IsCut.eq_ofNames (h : IsCut text cut) : text = ofNames cut := by
  apply String.toList_inj.1
  rw [toList_ofNames h.ne_nil, h.toList_eq]

theorem IsCut.segments_eq (h : IsCut text cut) : segments text = cut := by
  rw [h.eq_ofNames]
  exact segments_ofNames h.no_slash h.ne_nil

theorem IsCut.head? (h : IsCut text cut) : text.toList.head? = some '/' := by
  rcases List.exists_cons_of_ne_nil h.ne_nil with ⟨first, rest, rfl⟩
  rw [h.toList_eq, spelled_cons, List.head?_cons]

theorem isCut_segments (hfirst : text.toList.head? = some '/') : IsCut text (segments text) :=
  ⟨segments_ne_nil text, fun _ => no_slash_of_mem_segments, (spelled_segments hfirst).symm⟩

theorem isCut_ofNames (hne : names ≠ []) (hnames : ∀ n ∈ names, IsName n) :
    IsCut (ofNames names) names :=
  ⟨hne, fun n hn => (hnames n hn).no_slash, toList_ofNames hne⟩

theorem subsingleton_isCut (text : String) : {cut | IsCut text cut}.Subsingleton := by
  intro cut hcut other hother
  rw [← IsCut.segments_eq hcut, IsCut.segments_eq hother]

end Cuts

/-! ## Accepted texts -/

section Accepted

variable {text : String}

theorem validate_eq_ok_iff : validate text = .ok () ↔ error? text = none := by
  rw [validate]
  cases error? text <;> simp

theorem validate_eq_error_iff {err : PathError} :
    validate text = .error err ↔ error? text = some err := by
  rw [validate]
  cases error? text <;> simp

theorem error?_eq_none_iff : error? text = none ↔ IsPath text := by
  constructor
  · intro h
    rcases exists_names h with ⟨names, hnames, rfl⟩
    by_cases hne : names = []
    · exact Or.inl (by rw [hne, ofNames_nil])
    · exact Or.inr ⟨names, isCut_ofNames hne hnames, hnames⟩
  · rintro (rfl | ⟨names, hcut, hnames⟩)
    · exact error?_root
    · rw [hcut.eq_ofNames]
      exact error?_ofNames hnames

end Accepted

/-! ## Reported faults -/

section Faults

variable {text : String} {err : PathError}

/-- Looking for a bad segment stops at the first one. -/
theorem segmentError?_eq_some_iff {segments : List String} :
    segmentError? text segments = some err ↔
      ∃ before bad after, segments = before ++ bad :: after ∧
        (∀ segment ∈ before, segment ≠ "" ∧ segment ≠ "..") ∧
        (bad = "" ∧ err = .emptySegment text ∨ bad = ".." ∧ err = .parentSegment text) := by
  induction segments with
  | nil => simp [segmentError?]
  | cons segment rest ih =>
    constructor
    · intro h
      rw [segmentError?] at h
      split at h
      · rename_i hempty
        exact ⟨[], segment, rest, rfl, by simp, Or.inl ⟨hempty, (Option.some.inj h).symm⟩⟩
      · rename_i hempty
        split at h
        · rename_i hup
          exact ⟨[], segment, rest, rfl, by simp, Or.inr ⟨hup, (Option.some.inj h).symm⟩⟩
        · rename_i hup
          rcases ih.1 h with ⟨before, bad, after, rfl, hbefore, hbad⟩
          exact ⟨segment :: before, bad, after, rfl,
            List.forall_mem_cons.2 ⟨⟨hempty, hup⟩, hbefore⟩, hbad⟩
    · rintro ⟨before, bad, after, hsplit, hbefore, hbad⟩
      -- The search stops here, or it passes over a good segment.
      cases before with
      | nil =>
        obtain ⟨rfl, rfl⟩ := List.cons.inj hsplit
        rcases hbad with ⟨rfl, rfl⟩ | ⟨rfl, rfl⟩ <;> simp [segmentError?]
      | cons first before =>
        obtain ⟨rfl, rfl⟩ := List.cons.inj hsplit
        rcases List.forall_mem_cons.1 hbefore with ⟨⟨hempty, hup⟩, hbefore⟩
        rw [segmentError?, if_neg hempty, if_neg hup]
        exact ih.2 ⟨before, bad, after, rfl, hbefore, hbad⟩

/-- What the segments decide, once the ends of a text are right. -/
theorem error?_of_ends (hfirst : text.toList.head? = some '/')
    (hlast : text.toList.getLast? ≠ some '/') :
    error? text = segmentError? text (segments text) := by
  have hroot : text ≠ root := by
    rintro rfl
    exact hlast (by decide)
  simp [error?, isAbsolute, hfirst, hroot, hlast]

theorem HasFault.of_error? (h : error? text = some err) : HasFault text err := by
  -- The checks come in this order; only the last one looks at what is between the slashes.
  by_cases hfirst : text.toList.head? = some '/'
  · by_cases hroot : text = root
    · rw [hroot, error?_root] at h
      cases h
    · by_cases hlast : text.toList.getLast? = some '/'
      · have herr : error? text = some (.trailingSlash text) := by
          simp [error?, isAbsolute, hfirst, hroot, hlast]
        cases herr.symm.trans h
        exact .trailingSlash hfirst hroot hlast
      · rw [error?_of_ends hfirst hlast, segmentError?_eq_some_iff] at h
        rcases h with ⟨before, bad, after, hsplit, hbefore, hbad⟩
        have hcut := isCut_segments hfirst
        rw [hsplit] at hcut
        have hnames : ∀ name ∈ before, IsName name := by
          intro name hname
          exact ⟨(hbefore name hname).1, (hbefore name hname).2,
            hcut.no_slash name (List.mem_append_left _ hname)⟩
        rcases hbad with ⟨rfl, rfl⟩ | ⟨rfl, rfl⟩
        · exact .emptySegment hlast hcut hnames
        · exact .parentSegment hlast hcut hnames
  · have herr : error? text = some (.notAbsolute text) := by
      simp [error?, isAbsolute, hfirst]
    cases herr.symm.trans h
    exact .notAbsolute hfirst

/-- A text whose first bad segment is known, and whose ends are right. -/
theorem error?_of_isCut {before after : List String} {bad : String}
    (hlast : text.toList.getLast? ≠ some '/') (hcut : IsCut text (before ++ bad :: after))
    (hbefore : ∀ name ∈ before, IsName name)
    (hbad : bad = "" ∧ err = .emptySegment text ∨ bad = ".." ∧ err = .parentSegment text) :
    error? text = some err := by
  rw [error?_of_ends hcut.head? hlast, hcut.segments_eq, segmentError?_eq_some_iff]
  exact ⟨before, bad, after, rfl,
    fun name hname => ⟨(hbefore name hname).ne_empty, (hbefore name hname).ne_up⟩, hbad⟩

theorem error?_eq_some_iff : error? text = some err ↔ HasFault text err := by
  refine ⟨HasFault.of_error?, ?_⟩
  intro h
  cases h with
  | notAbsolute hfirst => simp [error?, isAbsolute, hfirst]
  | trailingSlash hfirst hroot hlast => simp [error?, isAbsolute, hfirst, hroot, hlast]
  | emptySegment hlast hcut hbefore =>
    exact error?_of_isCut hlast hcut hbefore (Or.inl ⟨rfl, rfl⟩)
  | parentSegment hlast hcut hbefore =>
    exact error?_of_isCut hlast hcut hbefore (Or.inr ⟨rfl, rfl⟩)

end Faults

end Path

/-! ## Parsed paths -/

namespace TreePath

variable {text : String} {place : TreePath}

/-- Parsing keeps the text. -/
theorem parse_eq_ok_iff : parse text = .ok place ↔ place.text = text := by
  unfold parse
  split
  · constructor
    · intro h
      cases h
      rfl
    · rintro rfl
      rfl
  · rename_i err herr
    constructor
    · intro h
      cases h
    · rintro rfl
      rw [place.wellFormed] at herr
      cases herr

theorem parse_of_wellFormed (h : Path.error? text = none) : parse text = .ok ⟨text, h⟩ :=
  parse_eq_ok_iff.2 rfl

theorem parse_eq_error_iff {err : PathError} :
    parse text = .error err ↔ Path.error? text = some err := by
  unfold parse
  split
  · rename_i hnone
    simp [hnone]
  · rename_i other hother
    simp [hother]

theorem exists_parse_iff : (∃ place, parse text = .ok place) ↔ Path.IsPath text := by
  rw [← Path.error?_eq_none_iff]
  constructor
  · rintro ⟨place, hplace⟩
    rw [← parse_eq_ok_iff.1 hplace]
    exact place.wellFormed
  · intro h
    exact ⟨⟨text, h⟩, parse_of_wellFormed h⟩

theorem map_text_parse_eq_ok_iff {other : String} :
    (parse text).map (·.text) = .ok other ↔ Path.IsPath text ∧ other = text := by
  rw [← exists_parse_iff]
  cases hparse : parse text with
  | error err => simp [Except.map]
  | ok place =>
    simp [Except.map, parse_eq_ok_iff.1 hparse, eq_comm]

/-- A relative name is parsed behind one slash, whatever slashes it starts with. -/
theorem ofRelative_eq (name : String) :
    ofRelative name = parse (String.ofList ('/' :: name.toList.dropWhile (· == '/'))) := by
  rw [ofRelative]
  congr 1
  apply String.toList_inj.1
  simp [Text.dropSlashes]

/-! ### Names -/

/-- The names of a path, from the root down. -/
def names (path : TreePath) : List String :=
  if path.text = Path.root then [] else Path.segments path.text

section Names

variable {path : TreePath} {list : List String}

theorem names_eq_of_text (hlist : ∀ n ∈ list, Path.IsName n) (htext : path.text = Path.ofNames list) :
    path.names = list := by
  rw [names]
  split
  · rename_i hroot
    rw [htext, Path.ofNames_eq_root_iff hlist] at hroot
    exact hroot.symm
  · rename_i hroot
    rw [htext, Path.ofNames_eq_root_iff hlist] at hroot
    rw [htext]
    exact (Path.isCut_ofNames hroot hlist).segments_eq

theorem isName_of_mem_names (path : TreePath) : ∀ n ∈ path.names, Path.IsName n := by
  rcases Path.exists_names path.wellFormed with ⟨list, hlist, htext⟩
  rwa [names_eq_of_text hlist htext.symm]

theorem ofNames_names (path : TreePath) : Path.ofNames path.names = path.text := by
  rcases Path.exists_names path.wellFormed with ⟨list, hlist, htext⟩
  rw [names_eq_of_text hlist htext.symm, htext]

end Names

end TreePath

namespace Path

/-- A path has one slash in front, so dropping slashes and putting one back changes nothing. -/
theorem IsPath.rooted_eq {text : String} (h : IsPath text) :
    String.ofList ('/' :: text.toList.dropWhile (· == '/')) = text := by
  apply String.toList_inj.1
  rw [String.toList_ofList]
  rcases h with rfl | ⟨names, hcut, hnames⟩
  · rfl
  · rcases List.exists_cons_of_ne_nil hcut.ne_nil with ⟨name, rest, rfl⟩
    -- What follows the first slash is a name, and a name starts with no slash.
    have hbody := (hnames name List.mem_cons_self).head?_append_ne (spelled rest)
    rw [hcut.toList_eq, spelled_cons, List.dropWhile_cons_of_pos (by rfl),
      dropWhile_slash_eq_self hbody]

/-- Validation accepts the texts of the grammar, whose names are unique, and reports the first fault
of any other text. -/
theorem validate_grammar (text : String) :
    (validate text = .ok () ↔ IsPath text) ∧
      {cut | IsCut text cut}.Subsingleton ∧
      (∀ err, validate text = .error err ↔ HasFault text err) ∧
      ((∃ place, TreePath.ofRelative text = .ok place) ↔
        IsPath (String.ofList ('/' :: text.toList.dropWhile (· == '/')))) ∧
      ((TreePath.ofRelative text).map (·.text) = .ok text ↔ IsPath text) := by
  refine ⟨?_, subsingleton_isCut text, ?_, ?_, ?_⟩
  · rw [validate_eq_ok_iff, error?_eq_none_iff]
  · intro err
    rw [validate_eq_error_iff, error?_eq_some_iff]
  · rw [TreePath.ofRelative_eq, TreePath.exists_parse_iff]
  · rw [TreePath.ofRelative_eq, TreePath.map_text_parse_eq_ok_iff]
    constructor
    · rintro ⟨hpath, heq⟩
      rwa [heq]
    · intro hpath
      rw [hpath.rooted_eq]
      exact ⟨hpath, rfl⟩

example : validate "/a//../b" = .error (.emptySegment "/a//../b") := by
  decide

end Path
end BuildTree
