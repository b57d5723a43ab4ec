import TorrentFs.Fuse.FsService

/-!
# The buffer of a metadata file

`write` and `setattr` keep the bytes of a `.torrent` file under `metadata/` until it is released.
The buffer is compared with a file that has a byte at every position, zero behind its end.
-/

namespace TorrentFs.Fuse

open List Option FinMap FsService Bool

open Text (Str)
open InodeManager Word

/-- A file with a byte at every position. -/
structure SparseFile where
  size : ℕ
  byteAt : ℕ → UInt8
  byteAt_of_le : ∀ i, size ≤ i → byteAt i = 0

namespace SparseFile

def empty : SparseFile := ⟨0, fun _ => 0, fun _ _ => rfl⟩

def truncate (f : SparseFile) (size : ℕ) : SparseFile where
  size
  byteAt i := if i < size then f.byteAt i else 0
  byteAt_of_le _ h := if_neg (Nat.not_lt.mpr h)

def write (f : SparseFile) (offset : ℕ) (data : List UInt8) : SparseFile where
  size := max f.size (offset + data.length)
  byteAt i := if offset ≤ i ∧ i < offset + data.length then data.getD (i - offset) 0 else f.byteAt i
  byteAt_of_le i h := by
    rw [if_neg (by omega)]
    exact f.byteAt_of_le i (by omega)

def bytes (f : SparseFile) : List UInt8 := (List.range f.size).map f.byteAt

variable (f : SparseFile)

lemma length_bytes : f.bytes.length = f.size := by rw [bytes, length_map, length_range]

lemma getD_bytes (i : ℕ) : f.bytes.getD i 0 = f.byteAt i := by
  rw [getD_eq_getElem?_getD, bytes, getElem?_map]
  by_cases h : i < f.size
  · rw [getElem?_range h, map_some, getD_some]
  · rw [f.byteAt_of_le i (Nat.not_lt.mp h), getElem?_eq_none (by simpa using h),
      map_none, getD_none]

lemma eq_bytes {data : List UInt8} (hlength : data.length = f.size)
    (h : ∀ i < f.size, data.getD i 0 = f.byteAt i) : data = f.bytes := by
  refine ext_getElem (hlength.trans f.length_bytes.symm) fun i hi hi' => ?_
  have hbyte := (h i (hlength ▸ hi)).trans (f.getD_bytes i).symm
  simpa [getD_eq_getElem?_getD, hi, hi'] using hbyte

lemma resized_bytes (size : ℕ) : resized f.bytes size = (f.truncate size).bytes := by
  refine eq_bytes _ ?_ fun i hi => ?_
  · simp only [resized, truncate, length_append, length_take, length_bytes,
      length_replicate]
    omega
  · change i < size at hi
    rw [show (f.truncate size).byteAt i = f.byteAt i from if_pos hi, ← f.getD_bytes]
    simp only [resized, getD_eq_getElem?_getD, getElem?_append,
      getElem?_take_of_lt hi, getElem?_replicate, length_take]
    grind

lemma spliced_bytes (offset : ℕ) (data : List UInt8) :
    spliced f.bytes offset data = (f.write offset data).bytes := by
  refine eq_bytes _ ?_ fun i hi => ?_
  · simp only [spliced, write, length_append, length_take, length_bytes,
      length_replicate, length_drop]
    omega
  · change i < max f.size (offset + data.length) at hi
    have hstart : min offset (f.size + (offset + data.length - f.size)) = offset := by omega
    simp only [spliced, write, ← f.getD_bytes, getD_eq_getElem?_getD,
      getElem?_append, getElem?_take, getElem?_drop, getElem?_replicate,
      length_append, length_take, length_replicate, length_bytes, hstart]
    rcases lt_or_ge i offset with hbefore | hoffset
    · rw [if_pos (by omega), if_pos hbefore]
      grind [length_bytes]
    · grind

end SparseFile

/-- A call that changes a buffer. -/
inductive BufferCall where
  | truncate (size : ℕ)
  | write (offset : ℤ) (data : List UInt8)

namespace BufferCall

/-- The offset is not negative, and the end is within the limit. -/
def Accepted : BufferCall → Prop
  | .truncate size => size ≤ maxTorrentSize
  | .write offset data => 0 ≤ offset ∧ offset + data.length ≤ maxTorrentSize

instance : DecidablePred Accepted
  | .truncate size => inferInstanceAs (Decidable (size ≤ maxTorrentSize))
  | .write offset data =>
    inferInstanceAs (Decidable (0 ≤ offset ∧ offset + data.length ≤ maxTorrentSize))

def apply (f : SparseFile) : BufferCall → SparseFile
  | .truncate size => f.truncate size
  | .write offset data => f.write offset.toNat data

def run (ino : ℕ) (s : FsService) : BufferCall → Bool × FsService
  | .truncate size => ((s.setattr ino size).1.isOk, (s.setattr ino size).2)
  | .write offset data => ((s.write ino offset data).1.isOk, (s.write ino offset data).2)

def after (ino : ℕ) (s : FsService) (calls : List BufferCall) : FsService :=
  calls.foldl (fun s c => (c.run ino s).2) s

def fileAfter (f : SparseFile) (calls : List BufferCall) : SparseFile :=
  calls.foldl (fun f c => if c.Accepted then c.apply f else f) f

end BufferCall

/-- The inode is a file under `metadata/` with the bytes of `f`. -/
structure Buffered (s : FsService) (ino parent : ℕ) (name : Str) (unlinked : Bool)
    (f : SparseFile) : Prop where
  get : s.inodes.get ino = some (.file parent name f.bytes unlinked)
  child : isMetadataChild s.inodes ino = true
  notStats : ¬ (ino = statsIno ∨ isStatsIno ino)
  notData : isDataNamespace ino = false

variable {s : FsService} {ino parent : ℕ} {name : Str} {unlinked : Bool} {f : SparseFile}

lemma isMetadataChild_insert_file {m : FinMap ℕ InodeData} {data : List UInt8}
    (hget : m.get ino = some (.file parent name data unlinked)) (data' : List UInt8) (i : ℕ) :
    isMetadataChild (m.insert ino (.file parent name data' unlinked)) i = isMetadataChild m i := by
  have habove : ∀ fuel i, metadataAbove (m.insert ino (.file parent name data' unlinked)) fuel i =
      metadataAbove m fuel i := by
    intro fuel
    induction fuel with
    | zero => exact fun _ => rfl
    | succ fuel ih =>
      intro i
      rw [metadataAbove, metadataAbove, get_insert]
      by_cases hi : i = ino
      · rw [hi, if_pos rfl, hget]
        simp only [ih]
      · rw [if_neg hi]
        simp only [ih]
  rw [isMetadataChild, isMetadataChild, habove, keys_insert,
    Finset.insert_eq_of_mem (mem_keys_of_get hget)]

lemma Buffered.replace (h : Buffered s ino parent name unlinked f) (f' : SparseFile) :
    Buffered (s.setInodes (s.inodes.insert ino (.file parent name f'.bytes unlinked))) ino parent
      name unlinked f' where
  get := get_insert_self ..
  child := (isMetadataChild_insert_file h.get _ _).trans h.child
  notStats := h.notStats
  notData := h.notData

lemma Buffered.run (h : Buffered s ino parent name unlinked f) (c : BufferCall) :
    c.run ino s = (decide c.Accepted, if c.Accepted then
      s.setInodes (s.inodes.insert ino (.file parent name (c.apply f).bytes unlinked)) else s) := by
  by_cases hc : c.Accepted
  · rw [decide_eq_true hc, if_pos hc]
    cases c with
    | truncate size =>
      simp only [BufferCall.run, BufferCall.apply, setattr, h.notStats, h.notData,
        h.child, h.get, f.resized_bytes, false_eq_true, if_false, Bool.true_or, if_true,
        Nat.not_lt.mpr hc]
      rfl
    | write offset data =>
      obtain ⟨hsign, hend⟩ := hc
      have hword : maxTorrentSize < u64Max := by decide
      simp only [BufferCall.run, BufferCall.apply, FsService.write, h.notStats, h.notData, h.get,
        f.spliced_bytes, false_eq_true, if_false]
      rw [if_neg (by omega), if_neg (by omega), if_neg (by omega)]
      rfl
  · rw [decide_eq_false hc, if_neg hc]
    cases c with
    | truncate size =>
      simp only [BufferCall.run, setattr, h.notStats, h.notData, h.child, h.get,
        false_eq_true, if_false, Bool.true_or, if_true, Nat.lt_of_not_le hc]
      rfl
    | write offset data =>
      change ¬ (0 ≤ offset ∧ offset + data.length ≤ maxTorrentSize) at hc
      simp only [BufferCall.run, FsService.write, h.notStats, h.notData, h.get, false_eq_true,
        if_false]
      split
      · rfl
      split
      · rfl
      rw [if_pos (by omega)]
      rfl

lemma Buffered.after (calls : List BufferCall) : ∀ {s : FsService} {f : SparseFile},
    Buffered s ino parent name unlinked f → f.size ≤ maxTorrentSize →
      Buffered (BufferCall.after ino s calls) ino parent name unlinked
        (BufferCall.fileAfter f calls) ∧ (BufferCall.fileAfter f calls).size ≤ maxTorrentSize := by
  induction calls with
  | nil => exact fun h hsize => ⟨h, hsize⟩
  | cons c calls ih =>
    intro s f h hsize
    rw [BufferCall.after, BufferCall.fileAfter, foldl_cons, foldl_cons, h.run]
    by_cases hc : c.Accepted
    · simp only [hc, if_true]
      refine ih (h.replace _) ?_
      cases c with
      | truncate size => exact hc
      | write offset data =>
        obtain ⟨hsign, hend⟩ := hc
        exact max_le hsize (by omega)
    · simp only [hc, if_false]
      exact ih h hsize

/-- After any calls the buffer is the file that the accepted ones make, within the limit. The next
call succeeds exactly when it is to be accepted, and changes nothing otherwise. -/
theorem buffer_eq_sparse_file (s : FsService) (ino parent : ℕ) (name : Str) (unlinked : Bool)
    (h : Buffered s ino parent name unlinked .empty) (calls : List BufferCall) :
    (BufferCall.after ino s calls).inodes.get ino =
        some (.file parent name (BufferCall.fileAfter .empty calls).bytes unlinked) ∧
      (BufferCall.fileAfter .empty calls).bytes.length ≤ maxTorrentSize ∧
      ∀ c : BufferCall, ((c.run ino (BufferCall.after ino s calls)).1 = true ↔ c.Accepted) ∧
        (¬ c.Accepted → (c.run ino (BufferCall.after ino s calls)).2 =
          BufferCall.after ino s calls) := by
  obtain ⟨hafter, hsize⟩ := h.after calls (Nat.zero_le _)
  refine ⟨hafter.get, (SparseFile.length_bytes _).trans_le hsize, fun c => ?_⟩
  rw [hafter.run c]
  exact ⟨decide_eq_true_iff, fun hc => if_neg hc⟩

def oneFile : FsService :=
  FsService.new.setInodes (FsService.new.inodes.insert firstIno
    (.file metadataIno "a.torrent".toList [] false))

theorem buffer_after_gap : (BufferCall.after firstIno oneFile
        [.write 2 [7], .truncate 4, .write (-1) [1], .truncate 3]).inodes.get firstIno =
      some (.file metadataIno "a.torrent".toList [0, 0, 7] false) :=
  (buffer_eq_sparse_file oneFile firstIno metadataIno _ false
    ⟨rfl, by decide +kernel, by decide, by decide⟩ _).1.trans (by decide +kernel)

end TorrentFs.Fuse
