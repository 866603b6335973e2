import BuildTree.Proofs.Archive.Merge
import BuildTree.Proofs.Tar.RoundTrip
import BuildTree.Proofs.Tar.Walk

/-!
# Extraction — files of an archive that nobody vouches for

Whatever the bytes are, an archive that is read yields exactly the regular files that the walk over
its entries comes to: each file is the run of octets behind its header, as long as its entry says,
under the name that its entry gives it, and of several files with one path the last counts.  An
archive in which the walk comes to a regular file with a malformed path, or with more octets than
there are, is not read at all.
-/

namespace BuildTree
namespace Tar

/-- The name of a file as text. -/
def nameOf (header : Header) (ext : Extensions) : String :=
  Utf8.decodeLossy (effectiveName header ext)

/-- A name as a path in a tree: without leading `./` and then without leading slashes, behind one
slash. -/
def treePathOf (name : String) : String :=
  "/" ++ Text.dropSlashes (String.ofList (Text.dropHere name.toList))

/-- The walk over an archive comes to a regular file. -/
structure HasFile (archive : Bytes) (cursor : Cursor) (header : Header) (size : Nat) : Prop where
  due : Due archive cursor
  entry : HasEntry archive cursor header size
  regular : header.isRegular = true

/-- A path and contents that an archive has at a cursor: a regular file in front of the end of the
archive, whose header is intact, whose path is well formed, whose contents are there as a whole, and
behind which no regular file has its path. -/
structure HasLast (archive : Bytes) (path : String) (data : Bytes) (cursor : Cursor)
    (header : Header) (size : Nat) : Prop where
  file : HasFile archive cursor header size
  aligned : blockSize ∣ cursor.place
  intact : header.checksumMatches = some true
  before_end : ∀ stop, Due archive stop →
    archive.slice stop.place blockSize = Bytes.zeros blockSize → cursor.place < stop.place
  path_eq : path = treePathOf (nameOf header cursor.extensions)
  wellFormed : Path.validate path = .ok ()
  data_eq : data = archive.slice (cursor.place + blockSize) size
  length : data.length = size
  last : ∀ later header' size', HasFile archive later header' size' →
    treePathOf (nameOf header' later.extensions) = path → later.place ≤ cursor.place

/-! ## What reading yields along a walk -/

/-- What an entry adds to the files that are read: nothing, or an intact file. -/
inductive Yields (archive : Bytes) (cursor : Cursor) : Option (String × Bytes) → Prop
  | file {header : Header} {size : Nat} (entry : HasEntry archive cursor header size)
      (regular : header.isRegular = true) (intact : header.checksumMatches = some true)
      (wellFormed : Path.error? (treePathOf (nameOf header cursor.extensions)) = none)
      (fits : cursor.place + blockSize + size ≤ archive.length) :
      Yields archive cursor (some (treePathOf (nameOf header cursor.extensions),
        archive.slice (cursor.place + blockSize) size))
  | passed {header : Header} {size : Nat} (entry : HasEntry archive cursor header size)
      (other : header.isRegular = false) : Yields archive cursor none

/-- The files that are read from a cursor on: those of each entry that the walk comes to, up to a
place without an entry. -/
inductive Reads (archive : Bytes) : Cursor → List (String × Bytes) → Prop
  | ended {cursor : Cursor} (stop : ∀ header size, ¬HasEntry archive cursor header size) :
      Reads archive cursor []
  | step {cursor next : Cursor} {file? : Option (String × Bytes)} {files : List (String × Bytes)}
      (step : Step archive cursor next) (yields : Yields archive cursor file?)
      (behind : Reads archive next files) : Reads archive cursor (file?.toList ++ files)

section Along

variable {archive : Bytes} {cursor next : Cursor} {header : Header} {size : Nat}
  {files : List (String × Bytes)}

theorem Reads.of_step (h : Reads archive cursor files) (hstep : Step archive cursor next) :
    ∃ file? later, Yields archive cursor file? ∧ files = file?.toList ++ later ∧
      Reads archive next later := by
  cases h with
  | ended stop =>
    rcases hstep.exists_entry with ⟨header, size, hentry⟩
    exact absurd hentry (stop header size)
  | step step yields behind =>
    obtain rfl := step_rightUnique archive step hstep
    exact ⟨_, _, yields, rfl, behind⟩

/-- Further along the walk, what is read is an end of what was to be read. -/
theorem Reads.of_reaches (h : Reads archive cursor files)
    (hreaches : Relation.ReflTransGen (Step archive) cursor next) :
    ∃ later, Reads archive next later ∧ later <:+ files := by
  induction hreaches with
  | refl => exact ⟨files, h, List.suffix_refl _⟩
  | tail _ hstep ih =>
    rcases ih with ⟨later, hlater, hsuffix⟩
    rcases hlater.of_step hstep with ⟨file?, rest, -, rfl, hrest⟩
    exact ⟨rest, hrest, (List.suffix_append _ _).trans hsuffix⟩

/-- A regular file where reading goes on is read, or reading does not succeed. -/
theorem Reads.of_regular (h : Reads archive cursor files)
    (hentry : HasEntry archive cursor header size) (hregular : header.isRegular = true) :
    header.checksumMatches = some true ∧
      Path.error? (treePathOf (nameOf header cursor.extensions)) = none ∧
      cursor.place + blockSize + size ≤ archive.length ∧
      ∃ next later, Step archive cursor next ∧ Reads archive next later ∧
        files = (treePathOf (nameOf header cursor.extensions),
          archive.slice (cursor.place + blockSize) size) :: later := by
  cases h with
  | ended stop => exact absurd hentry (stop header size)
  | step step yields behind =>
    cases yields with
    | file entry _ intact wellFormed fits =>
      rcases entry.unique hentry with ⟨rfl, rfl⟩
      exact ⟨intact, wellFormed, fits, _, _, step, behind, rfl⟩
    | passed entry other =>
      obtain ⟨rfl, -⟩ := entry.unique hentry
      rw [hregular] at other
      cases other

/-- Every file that is read is yielded by an entry that the walk comes to, and the files behind it
are read from the next entry on. -/
theorem Reads.exists_of_split {front back : List (String × Bytes)} {file : String × Bytes}
    (h : Reads archive cursor files) (hsplit : files = front ++ file :: back) :
    ∃ origin next, Relation.ReflTransGen (Step archive) cursor origin ∧
      Yields archive origin (some file) ∧ Step archive origin next ∧ Reads archive next back := by
  induction h generalizing front with
  | ended _ => simp at hsplit
  | @step cursor next file? files step yields behind ih =>
    -- The file is the one of this entry, or one from further along.
    cases file? with
    | none =>
      rcases ih hsplit with ⟨origin, next', hreaches, hrest⟩
      exact ⟨origin, next', hreaches.head step, hrest⟩
    | some first =>
      cases front with
      | nil =>
        rcases List.cons.inj hsplit with ⟨rfl, rfl⟩
        exact ⟨cursor, next, .refl, yields, step, behind⟩
      | cons _ front =>
        rcases ih (List.cons.inj hsplit).2 with ⟨origin, next', hreaches, hrest⟩
        exact ⟨origin, next', hreaches.head step, hrest⟩

/-- A regular file that the walk comes to behind an entry is among the files read from there on. -/
theorem Reads.mem_of_lt {origin later : Cursor} (h : Reads archive next files)
    (horigin : Due archive origin) (hstep : Step archive origin next)
    (hlater : HasFile archive later header size) (hlt : origin.place < later.place) :
    (treePathOf (nameOf header later.extensions),
      archive.slice (later.place + blockSize) size) ∈ files := by
  have hreaches : Relation.ReflTransGen (Step archive) next later := by
    rcases (horigin.reaches_of_lt hlater.due hlt).cases_head with rfl | ⟨next', hstep', hsteps⟩
    · exact absurd hlt (Nat.lt_irrefl _)
    · rwa [step_rightUnique archive hstep hstep']
  rcases h.of_reaches hreaches with ⟨rest, hrest, hsuffix⟩
  rcases hrest.of_regular hlater.entry hlater.regular with ⟨-, -, -, _, _, -, -, rfl⟩
  exact hsuffix.subset List.mem_cons_self

/-- The map of the files that are read holds just the last file of each path. -/
theorem Reads.getElem?_ofPairs_iff (h : Reads archive .start files) {path : String} {data : Bytes} :
    (FileMap.ofPairs files)[path]? = some data ↔
      ∃ cursor header size, HasLast archive path data cursor header size := by
  rw [FileMap.getElem?_ofPairs]
  constructor
  · intro hheld
    rcases List.lookup_eq_some_iff.1 hheld with ⟨back, front, hsplit, hback⟩
    have hfiles : files = front.reverse ++ (path, data) :: back.reverse := by
      rw [← List.reverse_reverse files, hsplit]
      simp
    rcases h.exists_of_split hfiles with ⟨origin, next, hdue, hyields, hstep, hbehind⟩
    -- What is yielded there is the pair that the map holds.
    generalize hfile : (path, data) = file at hyields
    cases hyields with
    | @file header size entry regular intact wellFormed fits =>
      rcases Prod.mk.inj hfile with ⟨rfl, rfl⟩
      have hhasFile : HasFile archive origin header size := ⟨hdue, entry, regular⟩
      refine ⟨origin, header, size, hhasFile, Due.dvd_place hdue, intact,
        fun stop => entry.lt_of_zeros hdue, rfl, ?_, rfl, ?_, ?_⟩
      · rw [Path.validate, wellFormed]
      · rw [Bytes.slice, List.length_take, List.length_drop]
        omega
      · intro later header' size' hlater hpath
        -- A later file of the path would be among those behind this one.
        by_contra hle
        have hmem := hbehind.mem_of_lt hdue hstep hlater (Nat.not_le.1 hle)
        rw [hpath] at hmem
        have hne := hback _ (List.mem_reverse.1 hmem)
        simp at hne
  · rintro ⟨cursor, header, size, hlast⟩
    rcases h.of_reaches hlast.file.due with ⟨later, hlater, front, rfl⟩
    rcases hlater.of_regular hlast.file.entry hlast.file.regular with
      ⟨-, -, -, next, rest, hstep, hrest, rfl⟩
    rw [← hlast.path_eq, ← hlast.data_eq, List.reverse_append, List.reverse_cons, List.append_assoc]
    refine List.lookup_eq_some_iff.2 ⟨rest.reverse, front.reverse, rfl, ?_⟩
    -- No file behind it has its path, since it is the last of the walk.
    rintro ⟨path', data'⟩ hmem
    rcases List.append_of_mem (List.mem_reverse.1 hmem) with ⟨before, behind, hsplit⟩
    rcases hrest.exists_of_split hsplit with ⟨origin, _, hreaches, hyields, -, -⟩
    generalize hfile : (path', data') = file at hyields
    cases hyields with
    | @file header' size' entry regular _ _ _ =>
      rcases Prod.mk.inj hfile with ⟨rfl, rfl⟩
      have hdue : Due archive origin := (hlast.file.due.tail hstep).trans hreaches
      have hlt : cursor.place < origin.place :=
        hstep.lt_place.trans_le (place_le_of_reaches hreaches)
      refine bne_iff_ne.2 fun heq => ?_
      exact absurd (hlast.last origin header' size' ⟨hdue, entry, regular⟩ heq.symm)
        (Nat.not_le.2 hlt)

end Along

/-! ## Reading follows the walk -/

section Reading

variable {stream : ByteStream} {ext : Extensions} {place fuel : Nat}

theorem all_zero_iff {block : Bytes} (h : block.length = blockSize) :
    block.all (· == 0) = true ↔ block = Bytes.zeros blockSize := by
  rw [List.all_eq_true, Bytes.zeros, List.eq_replicate_iff, and_iff_right h]
  exact forall₂_congr fun b _ => beq_iff_eq

theorem entryAt_eq_some {entry : Entry}
    (h : entryAt stream ext (stream.data.drop place) = .ok (some entry)) :
    HasEntry stream.data ⟨place, ext⟩ entry.header entry.size ∧
      entry.header.checksumMatches = some true ∧
      entry.rest = stream.data.drop (place + blockSize) := by
  simp only [entryAt] at h
  split at h
  · cases h
  · split at h
    · cases h
    · rename_i hwhole
      split at h
      · cases h
      · rename_i hnonzero
        split at h
        · cases h
        · cases h
        · rename_i hchecksum
          split at h
          · cases h
          · rename_i written hwritten
            split at h
            · cases h
            · -- Every check was passed.
              cases h
              rw [List.length_drop] at hwhole
              have hpos : 0 < blockSize := by decide
              have hlength : ((stream.data.drop place).take blockSize).length = blockSize := by
                rw [List.length_take, List.length_drop]
                omega
              refine ⟨⟨?_, rfl, fun hzeros => hnonzero ((all_zero_iff hlength).2 hzeros), written,
                hwritten, rfl⟩, hchecksum, List.drop_drop⟩
              dsimp only
              omega

theorem entryAt_eq_none (h : entryAt stream ext (stream.data.drop place) = .ok none)
    (header : Header) (size : Nat) : ¬HasEntry stream.data ⟨place, ext⟩ header size := by
  intro hentry
  have hwhole : blockSize ≤ (stream.data.drop place).length := by
    have := hentry.whole
    rw [List.length_drop]
    dsimp only at this
    omega
  -- The block is whole and not all zeros, so reading goes past it or meets an error.
  have hnonzero : ¬((stream.data.drop place).take blockSize).all (· == 0) = true := by
    rw [all_zero_iff (List.length_take_of_le hwhole)]
    exact hentry.not_zeros
  have hne : (stream.data.drop place).isEmpty = false := by
    rw [List.isEmpty_eq_false_iff, ← List.length_pos_iff]
    exact Nat.lt_of_lt_of_le (by decide) hwhole
  simp only [entryAt, hne, Bool.false_and, Nat.not_lt.2 hwhole, hnonzero, if_false,
    Bool.false_eq_true] at h
  split at h
  · cases h
  · cases h
  · split at h
    · cases h
    · split at h <;> cases h

/-! ### Members -/

theorem add?_eq_some {entry : Entry} {more : Extensions} (h : ext.add? entry = .ok (some more)) :
    entry.header.isMember = false ∧
      more = ext.noting entry.header (entry.rest.take entry.size) := by
  unfold Extensions.add? at h
  unfold Header.isMember Extensions.noting
  split at h
  · rename_i hname
    split at h
    · cases h
    · cases h
      simp [hname]
  · rename_i hname
    split at h
    · rename_i hlink
      split at h
      · cases h
      · cases h
        simp [hname, hlink]
    · rename_i hlink
      split at h
      · rename_i hrecords
        split at h
        · cases h
        · cases h
          simp [hname, hlink, hrecords]
      · cases h

theorem add?_eq_none {entry : Entry} (h : ext.add? entry = .ok none) :
    entry.header.isMember = true := by
  unfold Extensions.add? at h
  unfold Header.isMember
  split at h
  · split at h <;> cases h
  · split at h
    · split at h <;> cases h
    · split at h
      · split at h <;> cases h
      · simp_all

theorem isRegular_of_not_isMember {header : Header} (h : header.isMember = false) :
    header.isRegular = false := by
  have hkind : header.kind = 'L'.toUInt8 ∨ header.kind = 'K'.toUInt8 ∨
      header.kind = 'x'.toUInt8 := by
    simp only [Header.isMember, Header.isExtension, Bool.not_eq_false', Bool.or_eq_true,
      Bool.and_eq_true, beq_iff_eq] at h
    tauto
  rcases hkind with hkind | hkind | hkind <;> rw [Header.isRegular, hkind] <;> decide

theorem skip_eq_ok {entry : Entry} {rest : Bytes} (h : entry.skip stream = .ok rest) :
    rest = entry.rest.drop (paddedLength entry.size) := by
  simp only [Entry.skip] at h
  split at h
  · cases h
    rfl
  · cases h

/-- A member stands at a cursor of the walk. -/
structure Member.IsAt (member : Member) (archive : Bytes) (cursor : Cursor) : Prop where
  extensions : cursor.extensions = member.extensions
  entry : HasEntry archive cursor member.entry.header member.entry.size
  intact : member.entry.header.checksumMatches = some true
  kind : member.entry.header.isMember = true
  rest : member.entry.rest = archive.drop (cursor.place + blockSize)

/-- Reading on to the next member follows the walk over extension entries. -/
theorem memberAt_follows {member? : Option Member}
    (h : memberAt stream fuel ext (stream.data.drop place) = .ok member?) :
    ∃ cursor, place ≤ cursor.place ∧
      (∀ files, Reads stream.data cursor files → Reads stream.data ⟨place, ext⟩ files) ∧
      (member? = none → ∀ header size, ¬HasEntry stream.data cursor header size) ∧
      ∀ member, member? = some member → member.IsAt stream.data cursor := by
  induction fuel generalizing place ext with
  | zero => cases h
  | succ fuel ih =>
    rw [memberAt] at h
    split at h
    · cases h
    · rename_i hnone
      split at h
      · cases h
      · cases h
        exact ⟨⟨place, ext⟩, Nat.le_refl _, fun _ hreads => hreads,
          fun _ => entryAt_eq_none hnone, fun _ hsome => by cases hsome⟩
    · rename_i entry hentry
      rcases entryAt_eq_some hentry with ⟨hhas, hintact, hrest⟩
      split at h
      · cases h
      · rename_i hadd
        cases h
        refine ⟨⟨place, ext⟩, Nat.le_refl _, fun _ hreads => hreads, fun hnone => ?_,
          fun member hmember => ?_⟩
        · cases hnone
        cases hmember
        exact ⟨rfl, hhas, hintact, add?_eq_none hadd, hrest⟩
      · rename_i more hadd
        rcases add?_eq_some hadd with ⟨hkind, rfl⟩
        split at h
        · cases h
        · -- The extension entry is stepped over, and yields no file.
          rename_i rest hskip
          obtain rfl := skip_eq_ok hskip
          rw [hrest, List.drop_drop] at h
          rcases ih h with ⟨cursor, hle, hreads, hnone, hsome⟩
          refine ⟨cursor, (Nat.le_add_right _ _).trans ((Nat.le_add_right _ _).trans hle), ?_,
            hnone, hsome⟩
          intro files hfiles
          exact .step (.extension hhas hkind) (.passed hhas (isRegular_of_not_isMember hkind))
            (hreads files hfiles)

theorem sparseBlocks_eq_ok {cover after : SparseCover} {size : Nat} {rest : Bytes}
    (h : sparseBlocks stream size fuel cover (stream.data.drop place) = .ok (after, rest)) :
    ∃ count, MapBlocks stream.data place count ∧
      rest = stream.data.drop (place + count * blockSize) := by
  induction fuel generalizing cover place with
  | zero => cases h
  | succ fuel ih =>
    rw [sparseBlocks] at h
    split at h
    · cases h
    · split at h
      · cases h
      · rw [List.getElem?_drop, List.drop_drop] at h
        split at h
        · rename_i hmore
          rcases ih h with ⟨count, hblocks, rfl⟩
          refine ⟨count + 1, .more hmore hblocks, ?_⟩
          rw [Nat.add_assoc, Nat.succ_mul, Nat.add_comm blockSize]
        · rename_i hlast
          cases h
          exact ⟨1, .last hlast, by rw [Nat.one_mul]⟩

theorem afterSparseMap_eq_ok {header : Header} {size : Nat} {rest : Bytes}
    (hkind : header.kind = 'S'.toUInt8)
    (h : afterSparseMap stream header size (stream.data.drop (place + blockSize)) = .ok rest) :
    ∃ count, MapLength stream.data place header count ∧
      rest = stream.data.drop (place + blockSize + count * blockSize) := by
  simp only [afterSparseMap, bind, Except.bind, pure, Except.pure] at h
  split at h
  · cases h
  · split at h
    · cases h
    · split at h
      · rename_i hlong
        split at h
        · cases h
        · rename_i after hblocks
          rcases sparseBlocks_eq_ok hblocks with ⟨count, hcount, hbehind⟩
          refine ⟨count, .some hkind hlong hcount, Eq.trans ?_ hbehind⟩
          -- The checks at the end of the map change nothing about where it ends.
          split at h
          · cases h
          · split at h <;> cases h
            rfl
      · rename_i hshort
        refine ⟨0, .none (Or.inr hshort), ?_⟩
        rw [Nat.zero_mul, Nat.add_zero]
        split at h
        · cases h
        · split at h <;> cases h
          rfl

/-- What is behind a member is where the walk steps to. -/
theorem Member.IsAt.exists_step {member : Member} {cursor : Cursor} {rest : Bytes}
    (hat : member.IsAt stream.data cursor) (h : afterMember stream member = .ok rest) :
    ∃ next, Step stream.data cursor next ∧ next.extensions = .empty ∧
      rest = stream.data.drop next.place := by
  unfold afterMember at h
  split at h
  · rename_i hkind
    split at h
    · cases h
    · rename_i behind hbehind
      rw [hat.rest] at hbehind
      rcases afterSparseMap_eq_ok hkind hbehind with ⟨count, hmap, rfl⟩
      exact ⟨_, .member hat.entry hat.kind hmap, rfl, by rw [skip_eq_ok h, List.drop_drop]⟩
  · rename_i hkind
    refine ⟨_, .member hat.entry hat.kind (.none (Or.inl hkind)), rfl, ?_⟩
    rw [skip_eq_ok h, hat.rest, List.drop_drop, Nat.zero_mul, Nat.add_zero]

/-! ### Files -/

theorem placeOf_eq_ok {name path : String} (h : placeOf name = .ok path) :
    path = treePathOf name ∧ Path.error? path = none := by
  unfold placeOf TreePath.ofRelative at h
  split at h
  · rename_i place hplace
    cases h
    exact ⟨TreePath.parse_eq_ok_iff.1 hplace, place.wellFormed⟩
  · cases h

theorem fileOf_eq_ok {member : Member} {cursor : Cursor} {file : String × Bytes}
    (hat : member.IsAt stream.data cursor) (hregular : member.entry.header.isRegular = true)
    (h : fileOf stream member = .ok file) : Yields stream.data cursor (some file) := by
  unfold fileOf at h
  rw [← hat.extensions] at h
  dsimp only at h
  split at h
  · cases h
  · rename_i path hpath
    rcases placeOf_eq_ok hpath with ⟨rfl, hwell⟩
    split at h
    · rename_i hfits
      cases h
      rw [hat.rest]
      refine .file hat.entry hregular hat.intact hwell ?_
      have := hat.entry.whole
      rw [hat.rest, List.length_drop] at hfits
      omega
    · split at h <;> cases h

/-- What is read of a stream are the files along the walk. -/
theorem reads_of_filesFrom {files : List (String × Bytes)}
    (h : filesFrom stream fuel (stream.data.drop place) = .ok files)
    (hfuel : (stream.data.drop place).length < fuel) :
    Reads stream.data ⟨place, .empty⟩ files := by
  -- One round reads a member, with the extension entries in front of it, and steps over it.
  induction fuel generalizing place files with
  | zero => exact absurd hfuel (Nat.not_lt_zero _)
  | succ fuel ih =>
    rw [filesFrom] at h
    split at h
    · cases h
    · rename_i hmember
      cases h
      rcases memberAt_follows hmember with ⟨cursor, -, hreads, hnone, -⟩
      exact hreads [] (.ended (hnone rfl))
    · rename_i member hmember
      rcases memberAt_follows hmember with ⟨cursor, hle, hreads, -, hsome⟩
      have hat := hsome member rfl
      split at h
      · cases h
      · rename_i file? hfile
        have hyields : Yields stream.data cursor file? := by
          split at hfile
          · rename_i hregular
            rcases map_eq_ok_iff.1 hfile with ⟨file, hfound, rfl⟩
            exact fileOf_eq_ok hat hregular hfound
          · rename_i hother
            cases hfile
            exact .passed hat.entry (Bool.eq_false_iff.2 hother)
        split at h
        · cases h
        · rename_i rest hrest
          rcases hat.exists_step hrest with ⟨next, hstep, hnext, rfl⟩
          split at h
          · cases h
          · rename_i later hlater
            cases h
            refine hreads _ (.step hstep hyields ?_)
            -- The next place is further on, so there is fuel for what is left.
            have hfurther : (stream.data.drop next.place).length < fuel := by
              have hlt := hstep.lt_place
              have hwhole := hat.entry.whole
              have hpos : 0 < blockSize := by decide
              rw [List.length_drop] at hfuel ⊢
              omega
            have hbehind := ih hlater hfurther
            rwa [← hnext] at hbehind

/-- What is read of an archive are the files along the walk from its start. -/
theorem reads_of_unpack {bytes : Bytes} {files : FileMap} (h : unpack bytes = .ok files) :
    ∃ pairs, files = FileMap.ofPairs pairs ∧ Reads (streamOf bytes).data .start pairs := by
  unfold unpack at h
  generalize streamOf bytes = stream at h ⊢
  rcases map_eq_ok_iff.1 h with ⟨pairs, hpairs, rfl⟩
  have hwhole : stream.data.drop 0 = stream.data := List.drop_zero
  refine ⟨pairs, rfl, ?_⟩
  rw [← hwhole] at hpairs
  exact reads_of_filesFrom hpairs (by rw [hwhole]; exact Nat.lt_succ_self _)

end Reading

/-! ## Archives -/

/-- Of an archive that is read, exactly the last regular file of each path is there, as its header
says; and an archive with a regular file whose path is malformed, or which is to have more octets
than there are, is not read. -/
theorem unpack_untrusted (bytes : Bytes) :
    (∀ files, unpack bytes = .ok files → ∀ path data, files[path]? = some data ↔
      ∃ cursor header size, HasLast (streamOf bytes).data path data cursor header size) ∧
    ∀ cursor header size, HasFile (streamOf bytes).data cursor header size →
      Path.validate (treePathOf (nameOf header cursor.extensions)) ≠ .ok () ∨
        (streamOf bytes).data.length < cursor.place + blockSize + size →
      ∃ err, unpack bytes = .error err := by
  constructor
  · intro files hfiles path data
    rcases reads_of_unpack hfiles with ⟨pairs, rfl, hpairs⟩
    exact hpairs.getElem?_ofPairs_iff
  · intro cursor header size hfile hbad
    cases hunpack : unpack bytes with
    | error err => exact ⟨err, rfl⟩
    | ok files =>
      -- Had the archive been read, then this file with it.
      rcases reads_of_unpack hunpack with ⟨pairs, -, hpairs⟩
      rcases hpairs.of_reaches hfile.due with ⟨later, hlater, -⟩
      rcases hlater.of_regular hfile.entry hfile.regular with ⟨-, hwell, hfits, -⟩
      rcases hbad with hmalformed | hshort
      · exact absurd (by rw [Path.validate, hwell]) hmalformed
      · exact absurd hfits (Nat.not_le.2 hshort)

theorem unpack_untrusted_greatest_size :
    (∃ archive files cursor header, unpack archive = .ok files ∧
      files["/lib/a"]? = some [9] ∧ HasLast archive "/lib/a" [9] cursor header 1) ∧
    ∃ err, unpack (fileHeader (Bytes.ofString "lib/a") maxOffset) = .error err := by
  have hfront : ∀ size, Front (Bytes.ofString "lib/a") size
      (fileHeader (Bytes.ofString "lib/a") size) := fun size => .plain (by decide) (by decide)
  constructor
  · -- Two files have one path, and the second counts.
    have hfile : ∀ data, IsFragment ("/lib/a", data)
        (fileHeader (Bytes.ofString "lib/a") data.length ++ (data ++ padding data.length)) :=
      fun data => .intro (hfront data.length) rfl
    have hfragments := List.Forall₂.cons (hfile [7]) (List.Forall₂.cons (hfile [9]) .nil)
    have hlength : ∀ data : Bytes, data.length = 1 →
        (fileHeader (Bytes.ofString "lib/a") data.length ++
          (data ++ padding data.length)).length = 1024 := by
      intro data hdata
      have hheader : (fileHeader (Bytes.ofString "lib/a") data.length).length = blockSize :=
        length_block (by decide) (Bytes.length_zeros 16)
      rw [List.length_append, length_append_padding, hheader, hdata]
      rfl
    have hunpack := unpack_whole hfragments (by
      rw [List.flatten_cons, List.length_append, hlength [7] rfl, List.flatten_cons,
        List.length_append, hlength [9] rfl]
      decide)
    have hgzip := @isGzip_fragments [] _ _ hfragments (by simp)
    rw [List.append_nil] at hgzip
    have hheld : (FileMap.ofPairs [("/lib/a", [7]), ("/lib/a", [9])])["/lib/a"]? = some [9] := by
      rw [FileMap.getElem?_ofPairs]
      rfl
    rcases ((unpack_untrusted _).1 _ hunpack "/lib/a" [9]).1 hheld with
      ⟨cursor, header, size, hlast⟩
    obtain rfl : 1 = size := hlast.length
    rw [streamOf, hgzip] at hlast
    exact ⟨_, _, cursor, header, hunpack, hheld, hlast⟩
  · -- The header says that as many octets follow as an offset can count, and none do.
    have hheader : Header.Describes ⟨fileHeader (Bytes.ofString "lib/a") maxOffset⟩ maxOffset 0 :=
      describes_fileHeader (by decide) (Nat.le_refl _)
    have hgzip := @isGzip_front [] _ _ _ (hfront maxOffset)
    rw [List.append_nil] at hgzip
    have hstream : (streamOf (fileHeader (Bytes.ofString "lib/a") maxOffset)).data =
        fileHeader (Bytes.ofString "lib/a") maxOffset := by
      rw [streamOf, hgzip]
      rfl
    refine (unpack_untrusted _).2 .start ⟨fileHeader (Bytes.ofString "lib/a") maxOffset⟩ maxOffset
      ?_ (Or.inr ?_)
    · rw [hstream]
      have hwhole : (fileHeader (Bytes.ofString "lib/a") maxOffset).slice 0 blockSize =
          fileHeader (Bytes.ofString "lib/a") maxOffset := List.take_of_length_le hheader.length.le
      refine ⟨.refl, ⟨?_, hwhole.symm, ?_, maxOffset, hheader.size, rfl⟩, ?_⟩
      · exact hheader.length.ge
      · intro hzeros
        have hnonzero := hheader.nonzero
        rw [(all_zero_iff hheader.length).2 hzeros] at hnonzero
        cases hnonzero
      · rw [Header.isRegular, hheader.kind]
        rfl
    · rw [hstream, hheader.length]
      decide

end Tar
end BuildTree
