import BuildTree.Cache.Parse
import BuildTree.Proofs.Text.Utf8

/-!
# Key streams — what is digested for a key tells the parts

Every part is written behind its length, in eight octets, so the parts can be taken off the front of
a stream one after the other, whatever octets they hold.  Hence lists of parts with one stream are
the same list, and two files get one key only if the digest itself takes two streams to one.
-/

namespace BuildTree

namespace Bytes

theorem littleEndian_inj {width n m : Nat} (hn : n < 256 ^ width) (hm : m < 256 ^ width)
    (h : littleEndian width n = littleEndian width m) : n = m := by
  induction width generalizing n m with
  | zero =>
    rw [Nat.pow_zero, Nat.lt_one_iff] at hn hm
    rw [hn, hm]
  | succ width ih =>
    rw [Nat.pow_succ'] at hn hm
    rcases List.cons.inj h with ⟨hoctet, hrest⟩
    have hlow : n % 256 = m % 256 := by
      have hoctets := congrArg UInt8.toNat hoctet
      rwa [Utf8.toNat_ofNat_of_lt (Nat.mod_lt n (by decide)),
        Utf8.toNat_ofNat_of_lt (Nat.mod_lt m (by decide))] at hoctets
    have hhigh : n / 256 = m / 256 :=
      ih (Nat.div_lt_of_lt_mul hn) (Nat.div_lt_of_lt_mul hm) hrest
    rw [← Nat.div_add_mod n 256, hhigh, hlow, Nat.div_add_mod]

theorem ofString_injective : Function.Injective ofString :=
  Function.LeftInverse.injective Utf8.decodeLossy_ofString

end Bytes

namespace Xxh3

theorem Word128.octets_injective : Function.Injective Word128.octets := by
  intro word other h
  have hlength : (Bytes.littleEndian 8 word.low.toNat).length =
      (Bytes.littleEndian 8 other.low.toNat).length := by
    rw [Bytes.length_littleEndian, Bytes.length_littleEndian]
  rcases List.append_inj h hlength with ⟨hlow, hhigh⟩
  have hlow' := Bytes.littleEndian_inj word.low.toNat_lt other.low.toNat_lt hlow
  have hhigh' := Bytes.littleEndian_inj word.high.toNat_lt other.high.toNat_lt hhigh
  cases word
  cases other
  rw [Word128.mk.injEq]
  exact ⟨UInt64.toNat_inj.1 hlow', UInt64.toNat_inj.1 hhigh'⟩

/-- Two byte strings that the digest does not tell apart. -/
def Collide (bytes other : Bytes) : Prop :=
  bytes ≠ other ∧ digest bytes = digest other

end Xxh3

namespace ContentKey

/-- The parts are short enough for their lengths to fit into eight octets. -/
def Fits (parts : List Bytes) : Prop :=
  ∀ part ∈ parts, part.length < 2 ^ 64

theorem stream_cons (part : Bytes) (parts : List Bytes) :
    stream (part :: parts) = Bytes.littleEndian 8 part.length ++ (part ++ stream parts) := by
  rw [stream, List.flatMap_cons, List.append_assoc]
  rfl

theorem stream_cons_ne_nil (part : Bytes) (parts : List Bytes) : stream (part :: parts) ≠ [] := by
  rw [stream_cons]
  exact List.append_ne_nil_of_left_ne_nil (List.cons_ne_nil _ _) _

/-- The first part is told by what is in front of a stream, and so is the stream of the others. -/
theorem stream_cons_inj {part other : Bytes} {parts others : List Bytes}
    (hpart : part.length < 2 ^ 64) (hother : other.length < 2 ^ 64)
    (h : stream (part :: parts) = stream (other :: others)) :
    part = other ∧ stream parts = stream others := by
  rw [stream_cons, stream_cons] at h
  rcases List.append_inj h (by simp) with ⟨hwritten, hrest⟩
  have hlength : part.length = other.length := Bytes.littleEndian_inj hpart hother hwritten
  exact List.append_inj hrest hlength

theorem stream_injOn {parts others : List Bytes} (hparts : Fits parts) (hothers : Fits others)
    (h : stream parts = stream others) : parts = others := by
  induction parts generalizing others with
  | nil =>
    cases others with
    | nil => rfl
    | cons other others => exact absurd h.symm (stream_cons_ne_nil other others)
  | cons part parts ih =>
    cases others with
    | nil => exact absurd h (stream_cons_ne_nil part parts)
    | cons other others =>
      rcases stream_cons_inj (hparts part List.mem_cons_self) (hothers other List.mem_cons_self) h
        with ⟨rfl, hrest⟩
      have hlater : parts = others :=
        ih (fun later hlater => hparts later (List.mem_cons_of_mem part hlater))
          (fun later hlater => hothers later (List.mem_cons_of_mem part hlater)) hrest
      rw [hlater]

theorem ofParts_eq_iff {parts others : List Bytes} :
    ofParts parts = ofParts others ↔ Xxh3.digest (stream parts) = Xxh3.digest (stream others) := by
  rw [ofParts, ofParts, mk.injEq]
  exact Xxh3.Word128.octets_injective.eq_iff

end ContentKey

namespace ParseCache

/-- What parsed files are told apart by. -/
structure KeyedFile where
  name : String
  text : String
  languageVersion : String

namespace KeyedFile

/-- The parts that the key of a file is made from. -/
def parts (file : KeyedFile) : List Bytes :=
  [Bytes.ofString file.name, Bytes.ofString file.text, Bytes.ofString file.languageVersion]

/-- The key of a file. -/
def key (file : KeyedFile) : ContentKey :=
  ParseCache.key file.name file.text file.languageVersion

theorem parts_injective : Function.Injective parts := by
  rintro ⟨name, text, languageVersion⟩ ⟨name', text', languageVersion'⟩ h
  simp only [parts, List.cons.injEq, and_true] at h
  rw [mk.injEq]
  exact ⟨Bytes.ofString_injective h.1, Bytes.ofString_injective h.2.1,
    Bytes.ofString_injective h.2.2⟩

end KeyedFile

/-- No two lists of parts have one stream.  So the streams of different files are different, and the
files get one key just if the digest collides on their streams. -/
theorem streams_tell_parts :
    (∀ parts others : List Bytes, ContentKey.Fits parts → ContentKey.Fits others →
      ContentKey.stream parts = ContentKey.stream others → parts = others) ∧
    ∀ file other : KeyedFile, ContentKey.Fits file.parts → ContentKey.Fits other.parts →
      file ≠ other →
        ContentKey.stream file.parts ≠ ContentKey.stream other.parts ∧
        (file.key = other.key ↔
          Xxh3.Collide (ContentKey.stream file.parts) (ContentKey.stream other.parts)) := by
  refine ⟨fun parts others => ContentKey.stream_injOn, fun file other hfile hother hne => ?_⟩
  have hstreams : ContentKey.stream file.parts ≠ ContentKey.stream other.parts := fun heq =>
    hne (KeyedFile.parts_injective (ContentKey.stream_injOn hfile hother heq))
  have hkeys : file.key = other.key ↔
      Xxh3.digest (ContentKey.stream file.parts) = Xxh3.digest (ContentKey.stream other.parts) :=
    ContentKey.ofParts_eq_iff
  exact ⟨hstreams, hkeys.trans ⟨fun heq => ⟨hstreams, heq⟩, fun hcollide => hcollide.2⟩⟩

/-- A part that looks like the lengths of two empty ones is not taken for them, and a letter that
moves from the text to the name is noticed. -/
theorem streams_tell_parts_shifted :
    ContentKey.Fits [[0, 0, 0, 0, 0, 0, 0, 0]] ∧ ContentKey.Fits [[], []] ∧
      ContentKey.stream [[0, 0, 0, 0, 0, 0, 0, 0]] ≠ ContentKey.stream [[], []] ∧
      ContentKey.Fits (KeyedFile.parts ⟨"/a", "bc", "es5"⟩) ∧
      ContentKey.Fits (KeyedFile.parts ⟨"/ab", "c", "es5"⟩) ∧
      ContentKey.stream (KeyedFile.parts ⟨"/a", "bc", "es5"⟩) ≠
        ContentKey.stream (KeyedFile.parts ⟨"/ab", "c", "es5"⟩) := by
  have hzeros : ContentKey.Fits [[0, 0, 0, 0, 0, 0, 0, 0]] := by simp [ContentKey.Fits]
  have hempty : ContentKey.Fits [[], []] := by simp [ContentKey.Fits]
  have hfile : ContentKey.Fits (KeyedFile.parts ⟨"/a", "bc", "es5"⟩) := by
    unfold ContentKey.Fits
    decide +kernel
  have hother : ContentKey.Fits (KeyedFile.parts ⟨"/ab", "c", "es5"⟩) := by
    unfold ContentKey.Fits
    decide +kernel
  refine ⟨hzeros, hempty, fun heq => ?_, hfile, hother, ?_⟩
  · cases streams_tell_parts.1 _ _ hzeros hempty heq
  · exact (streams_tell_parts.2 _ _ hfile hother (by simp)).1

end ParseCache
end BuildTree
