import BuildTree.Build.Run
import BuildTree.Proofs.FileStore
import BuildTree.Proofs.Tar.RoundTrip

/-!
# Output archives — the file is the fragments, one after the other

What was written to an output archive is partly on disk and partly in the buffer.  Pushing a
fragment adds it behind what was written, whichever of the two it goes to, so a closed archive has
every fragment in the order in which it was pushed, and is all that changed on disk.
-/

namespace BuildTree
namespace OutputArchive

variable {disk now : FileStore} {out : OutputArchive} {written fragment : Bytes}

/-- An archive to which some octets were written since it was created: those that left the buffer
are its file, and they are all that differs on disk. -/
def Holds (disk : FileStore) (out : OutputArchive) (now : FileStore) (written : Bytes) : Prop :=
  ∃ flushed, now = disk.putAt out.place flushed ∧ flushed ++ out.pending = written

theorem Holds.close (h : Holds disk out now written) (hplace : out.place ≠ []) :
    out.close now = disk.putAt out.place written := by
  rcases h with ⟨flushed, rfl, rfl⟩
  rw [OutputArchive.close, FileStore.appendAt_putAt hplace]

theorem Holds.buffer (h : Holds disk out now written) (fragment : Bytes) :
    Holds disk { out with pending := out.pending ++ fragment } now (written ++ fragment) := by
  rcases h with ⟨flushed, rfl, rfl⟩
  exact ⟨flushed, rfl, (List.append_assoc ..).symm⟩

theorem Holds.append (h : Holds disk out now written) (hplace : out.place ≠ [])
    (hempty : out.pending = []) (fragment : Bytes) :
    Holds disk out (now.appendAt out.place fragment) (written ++ fragment) := by
  rcases h with ⟨flushed, rfl, rfl⟩
  -- Nothing waits in the buffer that would have to go first.
  refine ⟨flushed ++ fragment, FileStore.appendAt_putAt hplace flushed, ?_⟩
  rw [hempty, List.append_nil, List.append_nil]

theorem Holds.flush (h : Holds disk out now written) (hplace : out.place ≠ []) :
    Holds disk { out with pending := [] } (now.appendAt out.place out.pending) written := by
  rcases h with ⟨flushed, rfl, rfl⟩
  exact ⟨flushed ++ out.pending, FileStore.appendAt_putAt hplace flushed, List.append_nil _⟩

theorem Holds.push (h : Holds disk out now written) (hplace : out.place ≠ []) (fragment : Bytes) :
    Holds disk (out.push now fragment).1 (out.push now fragment).2 (written ++ fragment) := by
  simp only [OutputArchive.push]
  by_cases hfits : fragment.length < bufferSize - out.pending.length
  · rw [if_pos hfits]
    exact h.buffer fragment
  rw [if_neg hfits]
  by_cases hfull : bufferSize - out.pending.length < fragment.length
  · -- The buffer is flushed, and the fragment goes to disk behind it or to the empty buffer.
    simp only [if_pos hfull]
    split
    · exact (h.flush hplace).append hplace rfl fragment
    · exact (h.flush hplace).buffer fragment
  · simp only [if_neg hfull]
    split
    · -- A fragment as long as the buffer fits into an empty one only.
      have hempty : out.pending = [] := by
        rw [← List.length_eq_zero_iff]
        simp only [bufferSize] at *
        omega
      exact h.append hplace hempty fragment
    · exact h.buffer fragment

theorem push_eq (out : OutputArchive) (now : FileStore) (fragment : Bytes) :
    (out.push now fragment).1.place = out.place ∧
      (out.push now fragment).1.written = out.written := by
  simp only [OutputArchive.push]
  split
  · exact ⟨rfl, rfl⟩
  · split <;> exact ⟨rfl, rfl⟩

theorem Holds.writeFile (h : Holds disk out now written) (hplace : out.place ≠ []) {name : String}
    {data : Bytes} (hpack : Tar.pack name data = .ok fragment) :
    ∃ next after, out.writeFile now name data = .ok (next, after) ∧ next.place = out.place ∧
      next.written = out.written + 1 ∧ Holds disk next after (written ++ fragment) := by
  rcases push_eq out now fragment with ⟨hsame, hcount⟩
  rcases h.push hplace fragment with ⟨flushed, hnow, hwritten⟩
  refine ⟨{ (out.push now fragment).1 with written := out.written + 1 },
    (out.push now fragment).2, ?_, hsame, rfl, flushed, hnow, hwritten⟩
  rw [OutputArchive.writeFile, hpack]
  simp only [hcount]

theorem placeFor_of_create {path : String} (h : create disk path = .ok (out, now)) :
    disk.placeFor path = .ok out.place := by
  unfold create at h
  split at h
  · cases h
  · rename_i place after hcreate
    cases h
    exact (FileStore.create_eq_ok_iff.1 hcreate).1

/-! ## Artifacts -/

/-- Artifacts and the fragments that they are packed into. -/
def Packed (artifacts : List Artifact) (fragments : List Bytes) : Prop :=
  List.Forall₂ (fun artifact fragment => Tar.pack artifact.path artifact.data = .ok fragment)
    artifacts fragments

/-- Fragments, one after the other, are an archive of the artifacts. -/
theorem Packed.exists_unpack {artifacts : List Artifact} {fragments : List Bytes}
    (h : Packed artifacts fragments) (hplain : ∀ artifact ∈ artifacts, Tar.IsPlain artifact.path)
    (hoffsets : fragments.flatten.length ≤ Tar.maxOffset) :
    ∃ files : FileMap, Tar.unpack fragments.flatten = .ok files ∧ ∀ name, files[name]? =
      (artifacts.map fun artifact => (artifact.path, artifact.data)).reverse.lookup name := by
  have hpairs : ∀ file ∈ artifacts.map fun artifact => (artifact.path, artifact.data),
      Tar.IsPlain file.1 := by
    intro file hfile
    rcases List.mem_map.1 hfile with ⟨artifact, hartifact, rfl⟩
    exact hplain artifact hartifact
  have hfragments := Tar.isFragment_of_packed hpairs (List.forall₂_map_left_iff.2 h)
  exact ⟨_, Tar.unpack_whole hfragments hoffsets, fun name => FileMap.getElem?_ofPairs _ name⟩

/-- Artifacts that can all be packed are all written, each behind those before it. -/
theorem Holds.writeArtifacts (h : Holds disk out now written) (hplace : out.place ≠ [])
    {artifacts : List Artifact} {fragments : List Bytes} (hpacked : Packed artifacts fragments) :
    out.writeArtifacts now artifacts =
      (.ok (out.written + artifacts.length),
        disk.putAt out.place (written ++ fragments.flatten)) := by
  induction hpacked generalizing out now written with
  | nil => simp [OutputArchive.writeArtifacts, h.close hplace]
  | @cons artifact fragment artifacts fragments hone hrest ih =>
    -- What holds after one file is what the others start from.
    rcases h.writeFile hplace hone with ⟨next, after, hwrite, hsame, hcount, hnext⟩
    have hafter := ih hnext (hsame ▸ hplace)
    rw [hsame, hcount] at hafter
    simp only [OutputArchive.writeArtifacts, hwrite, hafter, List.length_cons, List.flatten_cons,
      List.append_assoc]
    rw [Nat.add_right_comm, Nat.add_assoc]

theorem exists_packed {artifacts : List Artifact} {count : Nat}
    (h : (out.writeArtifacts now artifacts).1 = .ok count) :
    ∃ fragments, Packed artifacts fragments := by
  induction artifacts generalizing out now with
  | nil => exact ⟨[], .nil⟩
  | cons artifact artifacts ih =>
    rw [OutputArchive.writeArtifacts, writeFile] at h
    cases hpack : Tar.pack artifact.path artifact.data with
    | error cause =>
      rw [hpack] at h
      cases h
    | ok fragment =>
      rw [hpack] at h
      rcases ih h with ⟨fragments, hpacked⟩
      exact ⟨fragment :: fragments, .cons hpack hpacked⟩

/-- An output archive of artifacts that can all be packed is created and written. -/
theorem writeArtifacts_of_create {path : String} {place : Location} {artifacts : List Artifact}
    {fragments : List Bytes} (hplace : disk.placeFor path = .ok place)
    (hpacked : Packed artifacts fragments) :
    ∃ out now, create disk path = .ok (out, now) ∧ out.writeArtifacts now artifacts =
      (.ok artifacts.length, disk.putAt place fragments.flatten) := by
  have hcreated : Holds disk ⟨path, place, [], 0⟩ (disk.putAt place []) [] := ⟨[], rfl, rfl⟩
  have hwritten := hcreated.writeArtifacts (FileStore.ne_root_of_placeFor hplace) hpacked
  refine ⟨⟨path, place, [], 0⟩, disk.putAt place [], ?_, ?_⟩
  · rw [create, FileStore.create_eq_ok_iff.2 ⟨hplace, rfl⟩]
  · rw [hwritten, Nat.zero_add, List.nil_append]

end OutputArchive
end BuildTree
