import BuildTree.Proofs.Path.Disk
import BuildTree.Proofs.Tar.Stream

/-!
# Spellings — how a header spells a name

A header spells a name by its components.  Between them stands one slash, a `.` is left out unless it
is all there is, and a slash at the end stays, so the spelling is made of the characters of the name
in their order.  It can be written if no component is `..`, if it holds no NUL and if it fits; a name
that cannot be written is stored as it is, in an entry of its own, if it is long enough for that.
-/

namespace BuildTree
namespace Tar

/-! ## Octets of texts -/

theorem zero_mem_utf8EncodeChar_iff {c : Char} :
    (0 : UInt8) ∈ String.utf8EncodeChar c ↔ c = '\x00' := by
  constructor
  · intro h
    have hhigh : ∀ {n : Nat}, 0x80 ≤ n → n < 0x100 → (0 : UInt8) ≠ UInt8.ofNat n := by
      intro n hlow hlt heq
      have hnat := congrArg UInt8.toNat heq
      rw [Utf8.toNat_ofNat_of_lt hlt] at hnat
      exact absurd hnat (by simp; omega)
    rcases Utf8.utf8EncodeChar_cases c with
      ⟨hc, hcs⟩ | ⟨hc, hc', hcs⟩ | ⟨hc, hc', hcs⟩ | ⟨hc, hc', hcs⟩
    · rw [hcs, List.mem_singleton] at h
      have hnat := congrArg UInt8.toNat h
      rw [Utf8.toNat_ofNat_of_lt (by omega)] at hnat
      exact Char.toNat_inj.1 hnat.symm
    -- The octets of a longer form all have their top bit set.
    all_goals
      simp only [hcs, List.mem_cons, List.not_mem_nil, or_false] at h
      exfalso
    · rcases h with h | h <;> exact hhigh (by omega) (by omega) h
    · rcases h with h | h | h <;> exact hhigh (by omega) (by omega) h
    · rcases h with h | h | h | h <;> exact hhigh (by omega) (by omega) h
  · rintro rfl
    decide

theorem zero_mem_ofString_iff {text : String} :
    (0 : UInt8) ∈ Bytes.ofString text ↔ '\x00' ∈ text.toList := by
  rw [Bytes.ofString, List.mem_flatMap]
  constructor
  · rintro ⟨c, hc, hzero⟩
    exact zero_mem_utf8EncodeChar_iff.1 hzero ▸ hc
  · intro h
    exact ⟨_, h, zero_mem_utf8EncodeChar_iff.2 rfl⟩

theorem length_ofString_le {first second : String}
    (h : first.toList.Sublist second.toList) :
    (Bytes.ofString first).length ≤ (Bytes.ofString second).length :=
  (h.flatMap String.utf8EncodeChar).length_le

/-! ## Components -/

/-- The pieces of a name between its slashes that say something, `..` among them. -/
def loudPieces (name : String) : List String :=
  ((name.toList.splitOn '/').filter (!Disk.isSilent ·)).map String.ofList

/-- The components of a name as a header spells them. -/
def headerNames (name : String) : List String :=
  if loudPieces name = [] then ["."] else loudPieces name

/-- A slash, if the name ends with one. -/
def lastSlash (name : String) : List Char :=
  if name.toList.getLast? = some '/' then ['/'] else []

/-- A name as a header spells it. -/
def headerName (name : String) : String :=
  String.ofList ((Path.spelled (headerNames name)).drop 1 ++ lastSlash name)

/-- The component that a header spells by a name. -/
def componentNamed (name : String) : Disk.Component :=
  if name = "." then .here else Disk.componentOf name.toList

section Names

variable {name : String}

theorem mem_loudPieces_iff {piece : String} :
    piece ∈ loudPieces name ↔
      piece.toList ∈ name.toList.splitOn '/' ∧ piece ≠ "" ∧ piece ≠ "." := by
  have hsilent : ∀ text : List Char, (!Disk.isSilent text) = true ↔ text ≠ [] ∧ text ≠ ['.'] := by
    simp [Disk.isSilent]
  have hpoint : (piece = "." ↔ piece.toList = ['.']) ∧ (piece = "" ↔ piece.toList = []) :=
    ⟨String.toList_inj.symm, String.toList_inj.symm⟩
  simp only [loudPieces, List.mem_map, List.mem_filter, hsilent, hpoint, Ne]
  constructor
  · rintro ⟨text, ⟨hmem, hloud⟩, rfl⟩
    rw [String.toList_ofList]
    exact ⟨hmem, hloud⟩
  · rintro ⟨hmem, hloud⟩
    exact ⟨piece.toList, ⟨hmem, hloud⟩, String.ofList_toList⟩

theorem no_slash_of_mem_headerNames {n : String} (h : n ∈ headerNames name) : '/' ∉ n.toList := by
  unfold headerNames at h
  split at h
  · rw [List.mem_singleton.1 h]
    decide
  · exact Path.not_mem_of_mem_splitOn (mem_loudPieces_iff.1 h).1

theorem ne_empty_of_mem_headerNames {n : String} (h : n ∈ headerNames name) : n ≠ "" := by
  unfold headerNames at h
  split at h
  · rw [List.mem_singleton.1 h]
    decide
  · exact (mem_loudPieces_iff.1 h).2.1

theorem headerNames_ne_nil (name : String) : headerNames name ≠ [] := by
  unfold headerNames
  split
  · exact List.cons_ne_nil _ _
  · assumption

/-- A name in which nothing is said starts with a `.`. -/
theorem startsHere_of_silent (hne : name ≠ "") (hslash : name.toList.head? ≠ some '/')
    (hsilent : loudPieces name = []) : Disk.startsHere name.toList = true :=
  Disk.startsHere_of_silent (mt String.toList_eq_nil_iff.1 hne) hslash
    (List.map_eq_nil_iff.1 hsilent)

/-- The components behind the start of a name are those that say something. -/
theorem components_eq (hslash : name.toList.head? ≠ some '/') :
    Disk.components name = (if Disk.startsHere name.toList then [Disk.Component.here] else []) ++
      (loudPieces name).map fun n => Disk.componentOf n.toList := by
  have hloud : (loudPieces name).map (fun n => Disk.componentOf n.toList) =
      Disk.bodyComponents name.toList := by
    simp [loudPieces, Disk.bodyComponents]
  rw [hloud]
  cases hstart : Disk.startsHere name.toList with
  | false => simp [Disk.components, Disk.splitStart, hslash, hstart]
  | true =>
    -- The `.` at the start is a piece that says nothing.
    have hbody : Disk.bodyComponents name.toList.tail = Disk.bodyComponents name.toList := by
      unfold Disk.startsHere at hstart
      split at hstart
      · rename_i hname
        rw [hname]
        rfl
      · rename_i rest hname
        have hsplit : ('.' :: '/' :: rest).splitOn '/' = ['.'] :: rest.splitOn '/' :=
          List.splitOn_append_cons_self_of_not_mem (by decide : '/' ∉ ['.']) rest
        have hdrop : ('/' :: rest).splitOn '/' = [] :: rest.splitOn '/' :=
          List.splitOn_append_cons_self_of_not_mem (List.not_mem_nil) rest
        rw [hname, List.tail_cons, Disk.bodyComponents, Disk.bodyComponents, hsplit, hdrop]
        rfl
      · cases hstart
    simp [Disk.components, Disk.splitStart, hslash, hstart, hbody]

/-- The components that are written are those named in the spelling. -/
theorem writtenComponents_eq (hne : name ≠ "") (hslash : name.toList.head? ≠ some '/') :
    writtenComponents (Disk.components name) = (headerNames name).map componentNamed := by
  rw [components_eq hslash]
  by_cases hsilent : loudPieces name = []
  · simp [startsHere_of_silent hne hslash hsilent, hsilent, headerNames, writtenComponents,
      componentNamed]
  · have hmap : (headerNames name).map componentNamed =
        (loudPieces name).map fun n => Disk.componentOf n.toList := by
      rw [headerNames, if_neg hsilent]
      refine List.map_congr_left fun n hn => ?_
      rw [componentNamed, if_neg (mem_loudPieces_iff.1 hn).2.2]
    have hkept : ((loudPieces name).map fun n => Disk.componentOf n.toList).filter (· != .here) =
        (loudPieces name).map fun n => Disk.componentOf n.toList := by
      rw [List.filter_eq_self]
      intro component hcomponent
      rcases List.mem_map.1 hcomponent with ⟨n, -, rfl⟩
      simpa using (Disk.componentOf_ne_start n.toList).2
    have hfilter : ((if Disk.startsHere name.toList then [Disk.Component.here] else []) ++
        (loudPieces name).map fun n => Disk.componentOf n.toList).filter (· != .here) =
        (loudPieces name).map fun n => Disk.componentOf n.toList := by
      rw [List.filter_append, hkept]
      split <;> rfl
    rw [hmap, writtenComponents, if_neg, hfilter]
    -- A `.` alone has nothing else beside it.
    intro heq
    rw [heq] at hfilter
    exact hsilent (List.map_eq_nil_iff.1 hfilter.symm)

/-! ## Characters of spellings -/

/-- Behind a slash a spelling is the names in it, each behind a slash, and the slash at the end. -/
theorem cons_toList_headerName (name : String) :
    '/' :: (headerName name).toList = Path.spelled (headerNames name) ++ lastSlash name := by
  rcases List.exists_cons_of_ne_nil (headerNames_ne_nil name) with ⟨first, others, hnames⟩
  rw [headerName, String.toList_ofList, hnames, Path.spelled_cons]
  rfl

/-- The names in a spelling are pieces of the name. -/
theorem headerNames_sublist (hne : name ≠ "") (hslash : name.toList.head? ≠ some '/') :
    (headerNames name).Sublist ((name.toList.splitOn '/').map String.ofList) := by
  unfold headerNames
  split
  · rename_i hsilent
    rcases Disk.startsHere_iff.1 (startsHere_of_silent hne hslash hsilent) with ⟨others, hsplit⟩
    rw [hsplit, List.singleton_sublist]
    exact List.mem_cons_self
  · exact (List.filter_sublist).map String.ofList

/-- The last piece of a name that ends with a slash is empty. -/
theorem exists_pieces_of_last_slash (hlast : name.toList.getLast? = some '/') :
    ∃ pieces, name.toList.splitOn '/' = pieces ++ [[]] := by
  rcases List.eq_nil_or_concat' (name.toList.splitOn '/') with hnil | ⟨pieces, last, hsplit⟩
  · exact absurd hnil (List.splitOn_ne_nil '/' name.toList)
  have hclean : '/' ∉ last := Path.not_mem_of_mem_splitOn (by rw [hsplit]; simp)
  have hspelled := Path.spelled_splitOn name.toList
  rw [hsplit, List.map_append, List.map_singleton, Path.spelled_append, Path.spelled_cons,
    String.toList_ofList, Path.spelled_nil, List.append_nil] at hspelled
  -- The last character of the name is one of the last piece, if that has any.
  rcases List.eq_nil_or_concat' last with rfl | ⟨front, c, rfl⟩
  · exact ⟨pieces, hsplit⟩
  · have hend := congrArg List.getLast? hspelled
    rw [List.getLast?_cons_of_ne_nil (by rintro hnil; simp [hnil] at hlast), hlast] at hend
    rw [← List.cons_append, ← List.append_assoc, List.getLast?_concat] at hend
    exact absurd (by simp [Option.some.inj hend]) hclean

/-- A spelling is what is left of a name once characters are taken out of it. -/
theorem headerName_sublist (hne : name ≠ "") (hslash : name.toList.head? ≠ some '/') :
    (headerName name).toList.Sublist name.toList := by
  have hnames := headerNames_sublist hne hslash
  rw [← List.cons_sublist_cons (a := '/'), cons_toList_headerName, ← Path.spelled_splitOn,
    lastSlash]
  split
  · -- The slash at the end stands for the empty piece, which is none of the names.
    rename_i hlast
    rcases exists_pieces_of_last_slash hlast with ⟨pieces, hsplit⟩
    rw [hsplit, List.map_append] at hnames ⊢
    rcases List.sublist_append_iff.1 hnames with ⟨front, back, heq, hfront, hback⟩
    have hnil : back = [] := by
      rcases List.sublist_singleton.1 hback with hnil | hback
      · exact hnil
      · have hempty : "" ∈ headerNames name := by
          rw [heq, hback]
          simp
        exact absurd rfl (ne_empty_of_mem_headerNames hempty)
    rw [heq, hnil, List.append_nil, Path.spelled_append]
    exact (hfront.flatMap _).append (List.Sublist.refl _)
  · rw [List.append_nil]
    exact hnames.flatMap _

/-- No character but dots and slashes is taken out of a name. -/
theorem mem_headerName_iff (hne : name ≠ "") (hslash : name.toList.head? ≠ some '/') {c : Char}
    (hdot : c ≠ '.') (hc : c ≠ '/') : c ∈ (headerName name).toList ↔ c ∈ name.toList := by
  refine ⟨fun h => (headerName_sublist hne hslash).subset h, fun h => ?_⟩
  have hmem : c ∈ Path.spelled ((name.toList.splitOn '/').map String.ofList) := by
    rw [Path.spelled_splitOn]
    exact List.mem_cons_of_mem _ h
  rcases List.mem_flatMap.1 hmem with ⟨piece, hpiece, hin⟩
  have hin : c ∈ piece.toList := (List.mem_cons.1 hin).resolve_left hc
  -- A piece with such a character says something.
  have hloud : piece ∈ loudPieces name := by
    rcases List.mem_map.1 hpiece with ⟨text, htext, rfl⟩
    rw [mem_loudPieces_iff, String.toList_ofList]
    rw [String.toList_ofList] at hin
    refine ⟨htext, fun heq => ?_, fun heq => ?_⟩
    · rw [String.ofList_eq_empty_iff.1 heq] at hin
      cases hin
    · have htext : text = ['.'] := by rw [← String.toList_ofList (l := text), heq]; rfl
      rw [htext] at hin
      exact hdot (List.mem_singleton.1 hin)
  have hname : piece ∈ headerNames name := by
    rw [headerNames, if_neg (List.ne_nil_of_mem hloud)]
    exact hloud
  have hspelled : c ∈ '/' :: (headerName name).toList := by
    rw [cons_toList_headerName]
    exact List.mem_append_left _ (List.mem_flatMap.2 ⟨piece, hname, List.mem_cons_of_mem _ hin⟩)
  exact (List.mem_cons.1 hspelled).resolve_left hc

end Names

/-! ## Pieces -/

/-- The octets of names with slashes between them, piece by piece. -/
def joinedPieces : List String → List Bytes
  | [] => []
  | name :: names => Bytes.ofString name :: names.flatMap fun n => [slash, Bytes.ofString n]

theorem flatten_joinedPieces (names : List String) :
    (joinedPieces names).flatten =
      ((Path.spelled names).drop 1).flatMap String.utf8EncodeChar := by
  have hslash : String.utf8EncodeChar '/' = slash := rfl
  have hbehind : ∀ names : List String,
      (names.flatMap fun n => [slash, Bytes.ofString n]).flatten =
        (Path.spelled names).flatMap String.utf8EncodeChar := by
    intro names
    induction names with
    | nil => rfl
    | cons name names ih =>
      rw [List.flatMap_cons, List.flatten_append, ih, Path.spelled_cons, List.flatMap_cons, hslash,
        List.flatMap_append]
      simp [Bytes.ofString]
  cases names with
  | nil => rfl
  | cons name names =>
    rw [joinedPieces, List.flatten_cons, hbehind, Path.spelled_cons, List.drop_one, List.tail_cons,
      List.flatMap_append]
    rfl

/-- A name that ends with a slash has one as its last piece. -/
def lastPieces (name : String) : List Bytes :=
  if name.toList.getLast? = some '/' then [slash] else []

/-- The pieces of a spelling make up the spelling. -/
theorem flatten_pieces (name : String) :
    (joinedPieces (headerNames name) ++ lastPieces name).flatten =
      Bytes.ofString (headerName name) := by
  have hlast : (lastPieces name).flatten = (lastSlash name).flatMap String.utf8EncodeChar := by
    unfold lastPieces lastSlash
    split <;> rfl
  rw [List.flatten_append, flatten_joinedPieces, hlast, Bytes.ofString, headerName,
    String.toList_ofList, List.flatMap_append]

theorem componentText_componentNamed (name : String) :
    componentText (componentNamed name) = Bytes.ofString name := by
  unfold componentNamed
  split
  · rename_i hhere
    rw [hhere]
    rfl
  · unfold Disk.componentOf
    split
    · rename_i hup
      rw [componentText, Bytes.ofString, Bytes.ofString, hup]
      rfl
    · rfl

theorem componentNamed_eq_up_iff {name : String} : componentNamed name = .up ↔ name = ".." := by
  have hup : name = ".." ↔ name.toList = ['.', '.'] := String.toList_inj.symm
  unfold componentNamed Disk.componentOf
  split
  · rename_i hhere
    simp [hhere]
  · split <;> simp_all

theorem componentNamed_ne_root (name : String) : componentNamed name ≠ .root := by
  unfold componentNamed
  split
  · exact fun heq => by cases heq
  · exact (Disk.componentOf_ne_start name.toList).1

/-- The pieces of a component that can be written. -/
theorem componentPieces_eq {cut : Bool} {count place : Nat} {name : String}
    (h : name ≠ ".." ∨ cut = true ∧ place + 1 = count) :
    componentPieces cut count (componentNamed name) place =
      if place = 0 then [.ok (Bytes.ofString name)]
      else [.ok slash, .ok (Bytes.ofString name)] := by
  have hwritable : ¬(componentNamed name = .root ∨
      (componentNamed name = .up ∧ !(cut && place + 1 == count))) := by
    rintro (hroot | ⟨hup, hplace⟩)
    · exact componentNamed_ne_root name hroot
    · rcases h with hne | ⟨hcut, hlast⟩
      · exact hne (componentNamed_eq_up_iff.1 hup)
      · simp [hcut, hlast] at hplace
  rw [componentPieces, if_neg hwritable, componentText_componentNamed]

/-- Behind the first component every component has a slash in front. -/
theorem flatMap_componentPieces {cut : Bool} (count : Nat) (names : List String) (place : Nat)
    (hcount : place + 1 + names.length = count) (hup : ∀ n ∈ names.dropLast, n ≠ "..")
    (hlast : cut = true ∨ ∀ n ∈ names, n ≠ "..") :
    ((names.map componentNamed).zipIdx (place + 1)).flatMap (fun entry =>
      componentPieces cut count entry.1 entry.2) =
      (names.flatMap fun n => [slash, Bytes.ofString n]).map .ok := by
  induction names generalizing place with
  | nil => rfl
  | cons name names ih =>
    have hname : name ≠ ".." ∨ cut = true ∧ place + 1 + 1 = count := by
      cases names with
      | nil => exact hlast.symm.imp (fun h => h name List.mem_cons_self) fun h => ⟨h, hcount⟩
      | cons next names => exact Or.inl (hup name List.mem_cons_self)
    have hothers := ih (place + 1) (by rw [← hcount, List.length_cons]; omega)
      (fun n hn => hup n (by cases names <;> simp_all))
      (hlast.imp_right fun h n hn => h n (List.mem_cons_of_mem name hn))
    rw [List.map_cons, List.zipIdx_cons, List.flatMap_cons, hothers, componentPieces_eq hname,
      if_neg (Nat.succ_ne_zero place), List.flatMap_cons, List.map_append]
    rfl

section Pieces

variable {name : String} {cut : Bool}

/-- No component of a name is `..`, but at the end of a cut name one may be. -/
structure IsWritable (cut : Bool) (name : String) : Prop where
  noneBefore : ∀ n ∈ (headerNames name).dropLast, n ≠ ".."
  noneLast : cut = true ∨ ∀ n ∈ headerNames name, n ≠ ".."

theorem isWritable_false_iff : IsWritable false name ↔ ".." ∉ headerNames name := by
  constructor
  · exact fun h hmem => (h.noneLast.resolve_left Bool.false_ne_true) _ hmem rfl
  · intro h
    have hnone : ∀ n ∈ headerNames name, n ≠ ".." := fun n hn heq => h (heq ▸ hn)
    exact ⟨fun n hn => hnone n (List.dropLast_subset _ hn), Or.inr hnone⟩

/-- The pieces of a name are those of its spelling. -/
theorem namePieces_eq (hne : name ≠ "") (hslash : name.toList.head? ≠ some '/')
    (h : IsWritable cut name) :
    namePieces name cut = (joinedPieces (headerNames name) ++ lastPieces name).map .ok := by
  rcases h with ⟨hup, hlast⟩
  rcases List.exists_cons_of_ne_nil (headerNames_ne_nil name) with ⟨first, others, hnames⟩
  have hwritten := writtenComponents_eq hne hslash
  rw [hnames] at hwritten hup hlast ⊢
  have hfirst : first ≠ ".." ∨ cut = true ∧ 0 + 1 = (first :: others).length := by
    cases others with
    | nil => exact hlast.symm.imp (fun h => h first List.mem_cons_self) fun h => ⟨h, rfl⟩
    | cons next others => exact Or.inl (hup first List.mem_cons_self)
  have hothers := flatMap_componentPieces (first :: others).length others 0
    (by rw [List.length_cons]; omega) (fun n hn => hup n (by cases others <;> simp_all))
    (hlast.imp_right fun h n hn => h n (List.mem_cons_of_mem first hn))
  have hpieces : (((first :: others).map componentNamed).zipIdx).flatMap (fun entry =>
      componentPieces cut ((first :: others).map componentNamed).length entry.1 entry.2) =
      (joinedPieces (first :: others)).map .ok := by
    rw [List.length_map, List.map_cons, List.zipIdx_cons, List.flatMap_cons,
      componentPieces_eq hfirst, if_pos rfl, hothers]
    rfl
  have hsome : (first :: others).map componentNamed ≠ [] := by simp
  simp only [namePieces, hwritten, hpieces, hsome, if_false, lastPieces]
  split
  · rw [List.map_append]
    rfl
  · rw [List.append_nil]

/-- A `..` among the components makes an error of the pieces, unless it ends a cut name. -/
theorem last_of_namePieces_eq (hne : name ≠ "") (hslash : name.toList.head? ≠ some '/')
    {pieces : List Bytes} (h : namePieces name cut = pieces.map .ok) {place : Nat}
    (hplace : (headerNames name)[place]? = some "..") :
    cut = true ∧ place + 1 = (headerNames name).length := by
  by_contra hboth
  have hother : cut = false ∨ ¬place + 1 = (headerNames name).length := by
    rw [not_and_or] at hboth
    exact hboth.imp_left Bool.eq_false_of_not_eq_true
  have hwritten := writtenComponents_eq hne hslash
  have hentry : (Disk.Component.up, place) ∈ ((headerNames name).map componentNamed).zipIdx := by
    rw [List.mk_mem_zipIdx_iff_getElem?, List.getElem?_map, hplace, Option.map_some,
      componentNamed_eq_up_iff.2 rfl]
  have hin : Except.error .parentComponent ∈
      (((headerNames name).map componentNamed).zipIdx).flatMap fun entry =>
        componentPieces cut ((headerNames name).map componentNamed).length entry.1 entry.2 :=
    List.mem_flatMap.2 ⟨_, hentry, by simp [componentPieces, hother]⟩
  have hpiece : Except.error .parentComponent ∈ namePieces name cut := by
    have hsome : (headerNames name).map componentNamed ≠ [] := by simp [headerNames_ne_nil]
    simp only [namePieces, hwritten, hsome, if_false]
    split
    · exact List.mem_append_left _ hin
    · exact hin
  rw [h] at hpiece
  rcases List.mem_map.1 hpiece with ⟨piece, -, heq⟩
  cases heq

theorem isWritable_of_namePieces_eq (hne : name ≠ "") (hslash : name.toList.head? ≠ some '/')
    {pieces : List Bytes} (h : namePieces name cut = pieces.map .ok) : IsWritable cut name := by
  constructor
  · rintro n hn rfl
    rcases List.mem_iff_getElem?.1 hn with ⟨place, hplace⟩
    rw [List.getElem?_dropLast] at hplace
    split at hplace
    · have := (last_of_namePieces_eq hne hslash h hplace).2
      omega
    · cases hplace
  · by_contra hnone
    push Not at hnone
    rcases hnone with ⟨hcut, n, hn, rfl⟩
    rcases List.mem_iff_getElem?.1 hn with ⟨place, hplace⟩
    exact hcut (last_of_namePieces_eq hne hslash h hplace).1

end Pieces

end Tar
end BuildTree
