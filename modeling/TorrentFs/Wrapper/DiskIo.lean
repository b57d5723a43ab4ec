import TorrentFs.Lib.InStream
import TorrentFs.Wrapper.PieceStorage

/-!
# Block reads of the disk backend

`PieceStorageDiskIO::async_read` allocates a buffer, lets `PieceStorage::read_piece` read a block of
a piece file into it and hands the buffer to libtorrent, which sends it to a peer. `read_piece`
decides from the flags of the stream whether the read succeeded: a read that ends at the end of the
file counts as a success when it found at least one byte.

The history of the backend keeps the byte last written at each position of each piece file, so that
what a read returns can be compared with it.
-/

namespace TorrentFs.Wrapper

open Text Cache Option Function

/-! ### Reading a block -/

structure PeerRequest where
  piece : ℤ
  start : ℤ
  length : ℤ

inductive DiskError
  | noSuchFileOrDirectory
  | notEnoughMemory
  | ioError
deriving DecidableEq

structure ReadFaults where
  allocation : Bool
  openFile : Bool
  device : Bool

def ReadFaults.none : ReadFaults := ⟨false, false, false⟩

def PieceStorage.readPiece (f : ReadFaults) (key : Str) (offset : ℤ) (buf : Buffer) (size : ℕ)
    (s : PieceStorage) : Bool × Buffer :=
  match s.cache.cacheDir.file key with
  | none => (false, buf)
  | some content =>
    if f.openFile then (false, buf)
    else
      let (stream, data) := ((InStream.ofFile content).seekg offset).read size f.device
      (stream.good || (stream.eofbit && decide (0 < stream.gcount)), buf.fill data)

/-- `PieceStorageDiskIO`: the piece files and the info hashes of the storages. -/
structure DiskIo where
  pieces : PieceStorage
  storages : FinMap ℕ Str
  nextIndex : ℕ

namespace DiskIo

/-- `new_torrent`; the constructor of the storage throws when its directory cannot be made. -/
def newTorrent (io : DiskIo) (infoHash : Str) (dirFails : Bool) : DiskIo :=
  if dirFails then io
  else
    { io with
      storages := io.storages.insert io.nextIndex infoHash
      nextIndex := io.nextIndex + 1 }

def removeTorrent (io : DiskIo) (storage : ℕ) : DiskIo :=
  { io with storages := io.storages.erase storage }

def asyncRead (io : DiskIo) (f : ReadFaults) (storage : ℕ) (r : PeerRequest) :
    Except DiskError Buffer :=
  match io.storages.get storage with
  | none => .error .noSuchFileOrDirectory
  | some infoHash =>
    -- a negative length is a size that no allocator can serve
    if r.length < 0 ∨ f.allocation = true then .error .notEnoughMemory
    else
      let buf := Buffer.malloc r.length.toNat
      match io.pieces.readPiece f (pieceKey infoHash r.piece) r.start buf r.length.toNat with
      | (true, buf) => .ok buf
      | (false, _) => .error .noSuchFileOrDirectory

def faultsAt (f : WriteFaults) (start : ℤ) : WriteFaults :=
  if 0 ≤ start then f else { f with write := some 0 }

def asyncWrite (io : DiskIo) (f : WriteFaults) (storage : ℕ) (r : PeerRequest)
    (buf : List UInt8) : DiskIo × Except DiskError Unit :=
  match io.storages.get storage with
  | none => (io, .error .noSuchFileOrDirectory)
  | some infoHash =>
    let (states, isOk) := io.pieces.writePiece (faultsAt f r.start) (pieceKey infoHash r.piece)
      r.start.toNat buf
    ({ io with pieces := states.getLastD io.pieces }, if isOk then .ok () else .error .ioError)

end DiskIo

/-! ### What a write leaves in the file -/

def WriteFaults.landed (f : WriteFaults) (data : List UInt8) : List UInt8 :=
  match f.write with
  | .some n => data.take n
  | .none => data

/-- A write opens an existing file anew, which truncates it. -/
def WriteFaults.Truncates (f : WriteFaults) (key : Str) (s : PieceStorage) : Prop :=
  f.ensureDir = false ∧ (s.cache.cacheDir.file key).isSome ∧ f.openExisting = true ∧
    f.openNew = false

instance (f : WriteFaults) (key : Str) (s : PieceStorage) : Decidable (f.Truncates key s) :=
  inferInstanceAs (Decidable (_ ∧ _ ∧ _ ∧ _))

namespace PieceStorage

variable {f : WriteFaults} {key : Str} {s : PieceStorage}

def bytes (s : PieceStorage) (key : Str) : List UInt8 := (s.cache.cacheDir.file key).getD []

lemma bytes_openPiece {opened : PieceStorage} (hdir : f.ensureDir = false)
    (hkeeps : ¬ f.Truncates key s) (h : s.openPiece f key = some opened) (k : Str) :
    opened.bytes k = s.bytes k := by
  unfold openPiece at h
  split at h
  · cases h
    rfl
  · next hexists =>
    split at h
    · exact absurd h (some_ne_none _).symm
    · next hnew =>
      cases h
      have hmissing : s.cache.cacheDir.file key = none := by
        by_contra hfile
        have hsome := Option.isSome_iff_ne_none.mpr hfile
        refine hkeeps ⟨hdir, hsome, ?_, Bool.not_eq_true _ ▸ hnew⟩
        simpa [hsome] using hexists
      unfold bytes
      by_cases hk : k = key
      · subst hk
        simp [hmissing]
      · simp [update_of_ne hk]

lemma bytes_putBlock (s : PieceStorage) (key : Str) (offset : ℕ) (data : List UInt8) (k : Str) :
    (s.putBlock key offset data).bytes k =
      if k = key then Bytes.writeAt (s.bytes key) offset data else s.bytes k := by
  unfold bytes putBlock
  by_cases hk : k = key
  · subst hk
    simp
  · simp [hk]

lemma bytes_writePiece {opened : PieceStorage} (hdir : f.ensureDir = false)
    (hopen : s.openPiece f key = some opened) (offset : ℕ) (data : List UInt8) :
    ((s.writePiece f key offset data).1.getLastD s).bytes =
      (opened.putBlock key offset (f.landed data)).bytes := by
  unfold writePiece WriteFaults.landed
  rw [hdir, hopen]
  cases hwrite : f.write with
  | some n => simp
  | none =>
    by_cases hmarker : f.createMarker = true
    · simp [hmarker]
    · ext k : 1
      simp [hmarker, bytes, putMarker, Disk.createMarker]

end PieceStorage

/-! ### Histories -/

/-- The backend with the bytes last written to each piece file. -/
structure History where
  io : DiskIo
  last : Str → ℕ → Option UInt8

/-- What libtorrent asks of the backend besides reads. -/
inductive IoAction
  | newTorrent (infoHash : Str) (dirFails : Bool)
  | removeTorrent (storage : ℕ)
  | asyncWrite (f : WriteFaults) (storage : ℕ) (r : PeerRequest) (buf : List UInt8)

namespace History

def record (h : History) (f : WriteFaults) (infoHash : Str) (r : PeerRequest)
    (buf : List UInt8) : Str → ℕ → Option UInt8 :=
  let key := pieceKey infoHash r.piece
  let f := DiskIo.faultsAt f r.start
  if f.ensureDir = true ∨ h.io.pieces.openPiece f key = none then h.last
  else
    Function.update h.last key (Bytes.lastWritten (h.last key) r.start.toNat (f.landed buf))

def step (h : History) : IoAction → Option History
  | .newTorrent infoHash dirFails => some { h with io := h.io.newTorrent infoHash dirFails }
  | .removeTorrent storage => some { h with io := h.io.removeTorrent storage }
  | .asyncWrite f storage r buf =>
    some ⟨(h.io.asyncWrite f storage r buf).1,
      (h.io.storages.get storage).elim h.last fun infoHash => h.record f infoHash r buf⟩

def KeepsFiles (h : History) : IoAction → Prop
  | .asyncWrite f storage r _ =>
    ∀ infoHash ∈ h.io.storages.get storage,
      ¬ (DiskIo.faultsAt f r.start).Truncates (pieceKey infoHash r.piece) h.io.pieces
  | _ => True

/-- Every piece file holds the bytes last written to it. -/
def Agrees (h : History) : Prop := ∀ key, Bytes.Holds (h.last key) (h.io.pieces.bytes key)

lemma Agrees.step {h t : History} {a : IoAction} (hs : h.Agrees) (ha : h.KeepsFiles a)
    (hstep : h.step a = some t) : t.Agrees := by
  cases a with
  | newTorrent infoHash dirFails =>
    cases hstep
    unfold Agrees DiskIo.newTorrent
    split <;> exact hs
  | removeTorrent storage =>
    cases hstep
    exact hs
  | asyncWrite f storage r buf =>
    cases hstep
    cases hget : h.io.storages.get storage with
    | none =>
      simp only [Agrees, DiskIo.asyncWrite, hget, elim_none]
      exact hs
    | some infoHash =>
      simp only [Agrees, DiskIo.asyncWrite, hget, elim_some, record]
      have hkeeps := ha infoHash hget
      set key := pieceKey infoHash r.piece
      set f' := DiskIo.faultsAt f r.start
      intro k
      split
      · -- the file was not opened: nothing has changed
        next hidle =>
          have hnothing : h.io.pieces.writePiece f' key r.start.toNat buf = ([], false) := by
            unfold PieceStorage.writePiece
            rcases hidle with hdir | hopen
            · rw [if_pos hdir]
            · rw [hopen]
              split <;> rfl
          rw [hnothing]
          exact hs k
      · next hopens =>
        obtain ⟨hdir, hopen⟩ := not_or.mp hopens
        have hdir := Bool.not_eq_true _ ▸ hdir
        obtain ⟨opened, hopened⟩ := Option.ne_none_iff_exists'.mp hopen
        rw [PieceStorage.bytes_writePiece hdir hopened, PieceStorage.bytes_putBlock]
        have hsame := PieceStorage.bytes_openPiece hdir hkeeps hopened
        by_cases hk : k = key
        · rw [if_pos hk, hk, update_self, hsame]
          exact (hs key).writeAt r.start.toNat (f'.landed buf)
        · rw [if_neg hk, update_of_ne hk, hsame]
          exact hs k

lemma agrees_of_run {h t : History} {actions : List IoAction} (hs : h.Agrees)
    (hkeeps : Run.Along step KeepsFiles h actions)
    (hrun : Run.runFrom step h actions = some t) : t.Agrees :=
  Run.invariant_of_run_along (fun _ _ _ hinv ha hstep => hinv.step ha hstep) hs hkeeps hrun

end History

/-! ### What a read returns -/

lemma read_at {content data : List UInt8} {offset : ℤ} {size : ℕ} {deviceFails : Bool}
    {stream : InStream}
    (h : ((InStream.ofFile content).seekg offset).read size deviceFails = (stream, data))
    (hok : (stream.good || (stream.eofbit && decide (0 < stream.gcount))) = true) :
    0 ≤ offset ∧ data = (content.drop offset.toNat).take size := by
  by_cases hoffset : 0 ≤ offset
  · have hseek : (InStream.ofFile content).seekg offset =
        { InStream.ofFile content with pos := offset.toNat } := by
      simp [InStream.seekg, InStream.ofFile, hoffset]
    rw [hseek] at h
    cases deviceFails with
    | true =>
      -- `badbit` is set: the stream is not good and not at its end
      obtain ⟨rfl, -⟩ := Prod.mk.inj h
      simp [InStream.good, InStream.ofFile] at hok
    | false =>
      exact ⟨hoffset, (Prod.mk.inj h).2.symm⟩
  · have hseek : (InStream.ofFile content).seekg offset =
        { InStream.ofFile content with failbit := true } := by
      simp [InStream.seekg, InStream.ofFile, hoffset]
    rw [hseek, InStream.read, if_neg (by simp [InStream.good])] at h
    obtain ⟨rfl, -⟩ := Prod.mk.inj h
    simp [InStream.good, InStream.ofFile] at hok

lemma asyncRead_eq_ok {io : DiskIo} {f : ReadFaults} {storage : ℕ} {r : PeerRequest}
    {buf : Buffer} (h : io.asyncRead f storage r = .ok buf) :
    ∃ infoHash content, io.storages.get storage = some infoHash ∧
      io.pieces.cache.cacheDir.file (pieceKey infoHash r.piece) = some content ∧
      0 ≤ r.start ∧ 0 ≤ r.length ∧ buf = (Buffer.malloc r.length.toNat).fill
        ((content.drop r.start.toNat).take r.length.toNat) := by
  unfold DiskIo.asyncRead at h
  cases hget : io.storages.get storage with
  | none =>
    rw [hget] at h
    cases h
  | some infoHash =>
    simp only [hget] at h
    split at h
    · cases h
    · next hlength =>
      unfold PieceStorage.readPiece at h
      cases hfile : io.pieces.cache.cacheDir.file (pieceKey infoHash r.piece) with
      | none => simp [hfile] at h
      | some content =>
        simp only [hfile] at h
        by_cases hopen : f.openFile = true
        · simp [hopen] at h
        · rcases hread : ((InStream.ofFile content).seekg r.start).read r.length.toNat
            f.device with ⟨stream, data⟩
          simp only [hopen, hread] at h
          split at h
          · next heq =>
            obtain ⟨hok, hbuf⟩ := Prod.mk.inj heq
            obtain ⟨hstart, rfl⟩ := read_at hread hok
            exact ⟨infoHash, content, rfl, hfile, hstart, by omega,
              (Except.ok.inj h).symm.trans hbuf.symm⟩
          · cases h

/-- Every cell that is returned is a byte of the piece file, and the byte last written there. -/
def History.Returned (h : History) (storage : ℕ) (r : PeerRequest) (buf : Buffer) : Prop :=
  ∃ infoHash content, h.io.storages.get storage = some infoHash ∧
    h.io.pieces.cache.cacheDir.file (pieceKey infoHash r.piece) = some content ∧
    ∀ i < r.length.toNat, ∃ b, buf[i]? = some (some b) ∧ content[r.start.toNat + i]? = some b ∧
      b = (h.last (pieceKey infoHash r.piece) (r.start.toNat + i)).getD 0

def DiskIo.fileLength (io : DiskIo) (storage : ℕ) (piece : ℤ) : ℕ :=
  (io.storages.get storage).elim 0 fun infoHash =>
    (io.pieces.bytes (pieceKey infoHash piece)).length

/-- After every run of writes that truncate no file, a read that succeeds returns the bytes last
written exactly when its block lies within the piece file. -/
theorem returned_iff_within_file (start t : History) (actions : List IoAction)
    (hstart : start.Agrees) (hkeeps : Run.Along History.step History.KeepsFiles start actions)
    (hrun : Run.runFrom History.step start actions = some t) (f : ReadFaults) (storage : ℕ)
    (r : PeerRequest) (buf : Buffer) (hread : t.io.asyncRead f storage r = .ok buf) :
    t.Returned storage r buf ↔
      r.length = 0 ∨ r.start + r.length ≤ t.io.fileLength storage r.piece := by
  obtain ⟨infoHash, content, hget, hfile, hoffset, hlength, rfl⟩ := asyncRead_eq_ok hread
  have hholds := History.agrees_of_run hstart hkeeps hrun (pieceKey infoHash r.piece)
  have hbytes : t.io.pieces.bytes (pieceKey infoHash r.piece) = content := by
    rw [PieceStorage.bytes, hfile]
    rfl
  rw [hbytes] at hholds
  have hsize : t.io.fileLength storage r.piece = content.length := by
    rw [DiskIo.fileLength, hget, Option.elim_some, hbytes]
  rw [hsize]
  constructor
  · rintro ⟨infoHash', content', hget', hfile', hcells⟩
    obtain rfl := Option.some.inj (hget.symm.trans hget')
    obtain rfl := Option.some.inj (hfile.symm.trans hfile')
    by_cases hzero : r.length = 0
    · exact .inl hzero
    · -- the last cell is a byte of the file
      obtain ⟨b, -, hb, -⟩ := hcells (r.length.toNat - 1) (by omega)
      obtain ⟨hlast, -⟩ := List.getElem?_eq_some_iff.mp hb
      right
      omega
  · intro hwithin
    refine ⟨infoHash, content, hget, hfile, fun i hi => ?_⟩
    have hposition : r.start.toNat + i < content.length := by omega
    have hdata : ((content.drop r.start.toNat).take r.length.toNat)[i]? =
        some content[r.start.toNat + i] := by
      rw [List.getElem?_take_of_lt hi, List.getElem?_drop, List.getElem?_eq_getElem hposition]
    refine ⟨content[r.start.toNat + i], ?_, List.getElem?_eq_getElem hposition, ?_⟩
    · rw [Buffer.getElem?_fill_of_lt, hdata]
      exact (List.getElem?_eq_some_iff.mp hdata).1
    · have hlast := hholds.bytes _ hposition
      rw [List.getElem?_eq_getElem hposition] at hlast
      exact Option.some.inj hlast

def sampleHistory : History := ⟨⟨PieceStorage.sampleStorage, .empty, 0⟩, fun _ _ => none⟩

def firstByte : List IoAction :=
  [.newTorrent sampleHash false, .asyncWrite .none 0 ⟨0, 0, 1⟩ [7]]

lemma agrees_sampleHistory : sampleHistory.Agrees := fun _ => Bytes.holds_nil

instance (h : History) : DecidablePred h.KeepsFiles
  | .newTorrent _ _ | .removeTorrent _ => isTrue trivial
  | .asyncWrite f storage r _ =>
    inferInstanceAs (Decidable (∀ infoHash ∈ h.io.storages.get storage,
      ¬ (DiskIo.faultsAt f r.start).Truncates (pieceKey infoHash r.piece) h.io.pieces))

theorem returned_firstByte :
    sampleHistory.Agrees ∧ Run.Along History.step History.KeepsFiles sampleHistory firstByte ∧
      ∃ t buf, Run.runFrom History.step sampleHistory firstByte = some t ∧
        t.io.asyncRead .none 0 ⟨0, 0, 1⟩ = .ok buf ∧
        (t.Returned 0 ⟨0, 0, 1⟩ buf ↔ (1 : ℤ) = 0 ∨ (0 : ℤ) + 1 ≤ t.io.fileLength 0 0) := by
  have hkeeps : Run.Along History.step History.KeepsFiles sampleHistory firstByte := by decide
  refine ⟨agrees_sampleHistory, hkeeps, _, [some 7], rfl, rfl, ?_⟩
  exact returned_iff_within_file sampleHistory _ firstByte agrees_sampleHistory hkeeps rfl .none 0
    ⟨0, 0, 1⟩ [some 7] rfl

/-- A read of two bytes of a file with one byte succeeds; the second cell of the buffer is as the
allocator handed it out. When the file cannot be opened for update, the next write truncates it: the
byte that was written is read back as zero. -/
theorem read_past_end_returns_unset_byte :
    (∃ t, Run.runFrom History.step sampleHistory firstByte = some t ∧
      t.io.pieces.cache.cacheDir.file sampleKey = some [7] ∧
      t.io.asyncRead .none 0 ⟨0, 0, 2⟩ = .ok [some 7, none] ∧
      ¬ t.Returned 0 ⟨0, 0, 2⟩ [some 7, none]) ∧
    (∃ t, Run.runFrom History.step sampleHistory (firstByte ++
        [.asyncWrite { WriteFaults.none with openExisting := true } 0 ⟨0, 1, 1⟩ [8]]) = some t ∧
      t.last sampleKey 0 = some 7 ∧
      t.io.asyncRead .none 0 ⟨0, 0, 2⟩ = .ok [some 0, some 8] ∧
      ¬ t.Returned 0 ⟨0, 0, 2⟩ [some 0, some 8]) := by
  refine ⟨⟨_, rfl, by decide, by rfl, ?_⟩, ⟨_, rfl, by decide, by rfl, ?_⟩⟩
  · rintro ⟨infoHash, content, -, -, hcells⟩
    obtain ⟨b, hb, -⟩ := hcells 1 (by decide)
    simp at hb
  · rintro ⟨infoHash, content, hget, -, hcells⟩
    obtain rfl : infoHash = sampleHash := Option.some.inj (hget.symm.trans rfl)
    obtain ⟨b, hb, -, hlast⟩ := hcells 0 (by decide)
    obtain rfl : b = 0 := by simpa using hb.symm
    exact absurd hlast (by decide)

end TorrentFs.Wrapper
