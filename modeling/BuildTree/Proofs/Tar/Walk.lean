import BuildTree.Proofs.Path.Names
import BuildTree.Proofs.Tree.FileMap
import BuildTree.Tar.Unpack
import Mathlib.Logic.Relation

/-!
# Walks — the entries that an archive's own sizes lead to

Where the headers of an archive stand is told by the archive itself: behind each header come its
contents, padded to whole blocks, and then the next header.  A walk follows these sizes over any
bytes at all, with places as plain numbers, and gathers what extension entries say about the member
behind them.  It is the yardstick for reading: it checks nothing, it never goes back, and from every
place there is at most one way on.
-/

namespace BuildTree
namespace Tar

/-- A place where a header is due, and what the extension entries right before it say. -/
structure Cursor where
  place : Nat
  extensions : Extensions

/-- The start of an archive. -/
def Cursor.start : Cursor := ⟨0, .empty⟩

/-- An archive has an entry at a cursor: a whole block that is not all zeros, with a size, which
extension entries can replace. -/
structure HasEntry (archive : Bytes) (cursor : Cursor) (header : Header) (size : Nat) : Prop where
  whole : cursor.place + blockSize ≤ archive.length
  block : header.block = archive.slice cursor.place blockSize
  nonzero : header.block ≠ Bytes.zeros blockSize
  size : ∃ written, header.size? = some written ∧
    size = effectiveSize header written cursor.extensions

/-- Whether a header is that of a member, not of an extension entry. -/
def Header.isMember (header : Header) : Bool :=
  !(header.isExtension 'L' || header.isExtension 'K' || header.isExtension 'x')

/-- What is known about the member to come once an extension entry is read. -/
def Extensions.noting (ext : Extensions) (header : Header) (text : Bytes) : Extensions :=
  if header.isExtension 'L' then { ext with longName := some text }
  else if header.isExtension 'K' then { ext with longLink := some text }
  else { ext with records := some text }

/-! ## Maps of sparse files -/

/-- How many blocks the map of a sparse file goes on for: each but the last announces another. -/
inductive MapBlocks (archive : Bytes) : (place count : Nat) → Prop
  | last {place : Nat} (final : archive[place + 504]? ≠ some 1) : MapBlocks archive place 1
  | more {place count : Nat} (announced : archive[place + 504]? = some 1)
      (behind : MapBlocks archive (place + blockSize) count) : MapBlocks archive place (count + 1)

/-- How many blocks stand between a header and the contents: only the map of a sparse file can go on
behind its header. -/
inductive MapLength (archive : Bytes) (place : Nat) (header : Header) : (count : Nat) → Prop
  | none (short : header.kind ≠ 'S'.toUInt8 ∨ header.block[482]? ≠ some 1) :
      MapLength archive place header 0
  | some {count : Nat} (sparse : header.kind = 'S'.toUInt8) (long : header.block[482]? = some 1)
      (blocks : MapBlocks archive (place + blockSize) count) : MapLength archive place header count

/-! ## Steps -/

/-- From one header to the next: over an extension entry, whose contents are kept for the member to
come, or over a member, behind which nothing is known. -/
inductive Step (archive : Bytes) : Cursor → Cursor → Prop
  | extension {cursor : Cursor} {header : Header} {size : Nat}
      (entry : HasEntry archive cursor header size) (kind : header.isMember = false) :
      Step archive cursor ⟨cursor.place + blockSize + paddedLength size,
        cursor.extensions.noting header (archive.slice (cursor.place + blockSize) size)⟩
  | member {cursor : Cursor} {header : Header} {size count : Nat}
      (entry : HasEntry archive cursor header size) (kind : header.isMember = true)
      (map : MapLength archive cursor.place header count) :
      Step archive cursor
        ⟨cursor.place + blockSize + count * blockSize + paddedLength size, .empty⟩

/-- The walk over an archive comes to a cursor. -/
def Due (archive : Bytes) (cursor : Cursor) : Prop :=
  Relation.ReflTransGen (Step archive) .start cursor

section Steps

variable {archive : Bytes} {cursor next stop : Cursor} {header other : Header} {size size' : Nat}

theorem HasEntry.unique (first : HasEntry archive cursor header size)
    (second : HasEntry archive cursor other size') : header = other ∧ size = size' := by
  obtain rfl : header = other := by
    cases header
    cases other
    exact congrArg Header.mk (first.block.trans second.block.symm)
  rcases first.size with ⟨written, hwritten, rfl⟩
  rcases second.size with ⟨written', hwritten', rfl⟩
  obtain rfl : written = written' := Option.some.inj (hwritten.symm.trans hwritten')
  exact ⟨rfl, rfl⟩

theorem MapBlocks.unique {place count count' : Nat} (first : MapBlocks archive place count)
    (second : MapBlocks archive place count') : count = count' := by
  induction first generalizing count' with
  | last final =>
    cases second with
    | last _ => rfl
    | more announced _ => exact absurd announced final
  | more announced _ ih =>
    cases second with
    | last final => exact absurd announced final
    | more _ behind => exact congrArg (· + 1) (ih behind)

theorem MapLength.unique {place count count' : Nat} (first : MapLength archive place header count)
    (second : MapLength archive place header count') : count = count' := by
  cases first with
  | none short =>
    cases second with
    | none _ => rfl
    | some sparse long _ => exact absurd short (by simp [sparse, long])
  | some sparse long blocks =>
    cases second with
    | none short => exact absurd short (by simp [sparse, long])
    | some _ _ blocks' => exact blocks.unique blocks'

theorem Step.exists_entry (h : Step archive cursor next) :
    ∃ header size, HasEntry archive cursor header size := by
  cases h with
  | extension entry _ => exact ⟨_, _, entry⟩
  | member entry _ _ => exact ⟨_, _, entry⟩

theorem Step.lt_place (h : Step archive cursor next) : cursor.place < next.place := by
  have hpos : 0 < blockSize := by decide
  cases h with
  | extension _ _ => dsimp only; omega
  | member _ _ _ => dsimp only; omega

/-- From every place there is at most one way on. -/
theorem step_rightUnique (archive : Bytes) : Relator.RightUnique (Step archive) := by
  intro cursor next next' first second
  -- The header at a cursor decides which kind of step leads on, and how far.
  cases first with
  | extension entry kind =>
    cases second with
    | extension entry' _ =>
      rcases entry.unique entry' with ⟨rfl, rfl⟩
      rfl
    | member entry' kind' _ =>
      obtain ⟨rfl, -⟩ := entry.unique entry'
      exact absurd kind (by rw [kind']; decide)
  | member entry kind map =>
    cases second with
    | extension entry' kind' =>
      obtain ⟨rfl, -⟩ := entry.unique entry'
      exact absurd kind (by rw [kind']; decide)
    | member entry' _ map' =>
      rcases entry.unique entry' with ⟨rfl, rfl⟩
      rw [map.unique map']

/-! ## Whole walks -/

theorem place_le_of_reaches (h : Relation.ReflTransGen (Step archive) cursor next) :
    cursor.place ≤ next.place := by
  induction h with
  | refl => exact Nat.le_refl _
  | tail _ step ih => exact ih.trans step.lt_place.le

/-- Two cursors of one walk are passed one after the other, by place. -/
theorem Due.reaches_of_lt (hcursor : Due archive cursor) (hnext : Due archive next)
    (hlt : cursor.place < next.place) : Relation.ReflTransGen (Step archive) cursor next := by
  rcases Relation.ReflTransGen.total_of_right_unique (step_rightUnique archive) hcursor hnext with
    hforth | hback
  · exact hforth
  · exact absurd (place_le_of_reaches hback) (Nat.not_le.2 hlt)

theorem HasEntry.not_zeros (h : HasEntry archive cursor header size) :
    archive.slice cursor.place blockSize ≠ Bytes.zeros blockSize := by
  rw [← h.block]
  exact h.nonzero

/-- No walk goes past a block of zeros where a header is due. -/
theorem HasEntry.lt_of_zeros (h : HasEntry archive cursor header size) (hdue : Due archive cursor)
    (hstop : Due archive stop)
    (hzeros : archive.slice stop.place blockSize = Bytes.zeros blockSize) :
    cursor.place < stop.place := by
  by_contra hle
  rcases Nat.lt_or_eq_of_le (Nat.not_lt.1 hle) with hlt | heq
  · -- The walk would have to step on from the zeros.
    rcases Relation.ReflTransGen.cases_head (hstop.reaches_of_lt hdue hlt) with hsame | hsteps
    · rw [hsame] at hlt
      exact Nat.lt_irrefl _ hlt
    · rcases hsteps with ⟨next, hstep, -⟩
      rcases hstep.exists_entry with ⟨_, _, hentry⟩
      exact hentry.not_zeros hzeros
  · rw [heq] at hzeros
    exact h.not_zeros hzeros

/-- Headers stand at whole blocks. -/
theorem Due.dvd_place (h : Due archive cursor) : blockSize ∣ cursor.place := by
  induction h with
  | refl => exact Nat.dvd_zero _
  | tail _ step ih =>
    have hpadded : ∀ size, blockSize ∣ paddedLength size := fun size => Nat.dvd_mul_left _ _
    cases step with
    | extension _ _ => exact ((ih.add (Nat.dvd_refl _)).add (hpadded _))
    | member _ _ _ =>
      exact ((ih.add (Nat.dvd_refl _)).add (Nat.dvd_mul_left _ _)).add (hpadded _)

end Steps

end Tar
end BuildTree
