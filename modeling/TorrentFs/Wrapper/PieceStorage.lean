import TorrentFs.Cache.Scan
import TorrentFs.Lib.Bytes
import TorrentFs.Lib.Run
import Mathlib.Order.Interval.Finset.Nat

/-!
# Block writes and the incomplete marker

`PieceStorage::write_piece` puts a block into the file of its piece and then creates the marker
`<key>.incomplete`; `CacheManager::add_piece` removes the marker once the piece is whole, and the
startup scan reads it back. A call goes through its file operations one by one, each may fail,
and the process may stop after any of them.

The storage records, next to the cache directory, which positions of each piece file have been
written since the file was created. A piece misses a block when one of its positions is not
among them.
-/

namespace TorrentFs.Wrapper

open Text Cache Option Function CacheManager Disk

/-- The file operations of `write_piece` that fail during one call. -/
structure WriteFaults where
  ensureDir : Bool
  /-- Opening the existing file for update fails. -/
  openExisting : Bool
  /-- Opening the file for output, which creates or truncates it, fails. -/
  openNew : Bool
  /-- The write or the flush fails after this many bytes of the block reached the file. -/
  write : Option ℕ
  /-- Reopening the file or its `fsync` fails. -/
  fsync : Bool
  createMarker : Bool
deriving DecidableEq

def WriteFaults.none : WriteFaults := ⟨false, false, false, Option.none, false, false⟩

/-- The cache with its directory, the positions written to each piece file, and whether the
process is still running. -/
structure PieceStorage where
  cache : CacheManager
  written : Str → Finset ℕ
  running : Bool

namespace PieceStorage

def openPiece (f : WriteFaults) (key : Str) (s : PieceStorage) : Option PieceStorage :=
  if (s.cache.cacheDir.file key).isSome && !f.openExisting then some s
  else if f.openNew then none
  else some
    { s with
      cache.cacheDir.file := Function.update s.cache.cacheDir.file key (some [])
      written := Function.update s.written key ∅ }

def putBlock (key : Str) (offset : ℕ) (data : List UInt8) (s : PieceStorage) : PieceStorage :=
  { s with
    cache.cacheDir.file := Function.update s.cache.cacheDir.file key
      (some (Bytes.writeAt ((s.cache.cacheDir.file key).getD []) offset data))
    written := Function.update s.written key
      (s.written key ∪ Finset.Ico offset (offset + data.length)) }

def putMarker (key : Str) (s : PieceStorage) : PieceStorage :=
  { s with cache.cacheDir := s.cache.cacheDir.createMarker key }

/-- `write_piece`: the state after each file operation that changes the directory, and the value
returned. -/
def writePiece (f : WriteFaults) (key : Str) (offset : ℕ) (data : List UInt8)
    (s : PieceStorage) : List PieceStorage × Bool :=
  if f.ensureDir then ([], false)
  else
    match s.openPiece f key with
    | none => ([], false)
    | some opened =>
      match f.write with
      | some n => ([opened, opened.putBlock key offset (data.take n)], false)
      | none =>
        let filled := opened.putBlock key offset data
        -- a failed `fsync` is reported and ignored, and so is a failed marker
        if f.createMarker then ([opened, filled], true)
        else ([opened, filled, filled.putMarker key], true)

/-- The state in which a call leaves the storage when at most `ops` of its file operations take
place. -/
def writePieceUntil (f : WriteFaults) (key : Str) (offset : ℕ) (data : List UInt8) (ops : ℕ)
    (s : PieceStorage) : PieceStorage :=
  ((s.writePiece f key offset data).1.take ops).getLastD s

/-- A step of libtorrent's disk thread or of the cache. -/
inductive Action
  -- the process stops after `ops` file operations, if the call has more
  | writePiece (f : WriteFaults) (key : Str) (offset : ℕ) (data : List UInt8) (ops : ℕ)
  | addPiece (now : ℕ) (f : Faults) (key : Str) (size : ℕ)
  | registerIncompletePiece (now : ℕ) (f : Faults) (key : Str) (size : ℕ)
  | evictLru (f : Faults)

def HasAllBlocks (pieceSize : Str → ℕ) (s : PieceStorage) (key : Str) : Prop :=
  Finset.range (pieceSize key) ⊆ s.written key

instance (pieceSize : Str → ℕ) (s : PieceStorage) (key : Str) :
    Decidable (s.HasAllBlocks pieceSize key) :=
  inferInstanceAs (Decidable (Finset.range (pieceSize key) ⊆ s.written key))

variable {pieceSize : Str → ℕ} {s : PieceStorage} {c : CacheManager}

lemma hasAllBlocks_congr {t : PieceStorage} {key : Str} (h : t.written key = s.written key) :
    t.HasAllBlocks pieceSize key ↔ s.HasAllBlocks pieceSize key := by
  rw [HasAllBlocks, HasAllBlocks, h]

def step (pieceSize : Str → ℕ) (s : PieceStorage) : Action → Option PieceStorage
  | .writePiece f key offset data ops =>
    if s.running then
      some { s.writePieceUntil f key offset data ops with
        running := decide ((s.writePiece f key offset data).1.length ≤ ops) }
    else none
  | .addPiece now f key size =>
    -- the engine registers a piece as complete only when libtorrent has all of it
    if s.running ∧ s.HasAllBlocks pieceSize key then
      some { s with cache := (s.cache.addPiece now f key size).1 }
    else none
  | .registerIncompletePiece now f key size =>
    if s.running then
      some { s with cache := (s.cache.registerIncompletePiece now f key size).1 }
    else none
  | .evictLru f =>
    if s.running then some { s with cache := (s.cache.evictLru f).1 } else none

/-- Every piece file that misses a block has its marker. -/
def Tagged (pieceSize : Str → ℕ) (s : PieceStorage) : Prop :=
  ∀ key, s.cache.cacheDir.file key ≠ none → ¬ s.HasAllBlocks pieceSize key →
    s.cache.cacheDir.marker key = true

/-- A write that leaves no partial file without a marker: the marker was there before the call,
or the call does not get to open the file, or it gets to its marker, or its piece has all its
blocks where it ends. -/
def Covered (pieceSize : Str → ℕ) (s : PieceStorage) : Action → Prop
  | .writePiece f key offset data ops =>
    s.cache.cacheDir.marker key = true ∨
      (ops = 0 ∨ f.ensureDir = true ∨ s.openPiece f key = none) ∨
      (3 ≤ ops ∧ f.write = none ∧ f.createMarker = false) ∨
      (s.writePieceUntil f key offset data ops).HasAllBlocks pieceSize key
  | _ => True

/-! ### What one call does to the directory -/

section Call

variable {f : WriteFaults} {key : Str} {offset : ℕ} {data : List UInt8} {s : PieceStorage}

/-- A state of a call: only its own piece differs, the file of that piece exists, and a marker
that was there is still there. -/
structure DuringCall (key : Str) (s t : PieceStorage) : Prop where
  others : ∀ k, k ≠ key → t.cache.cacheDir.file k = s.cache.cacheDir.file k ∧
    t.cache.cacheDir.marker k = s.cache.cacheDir.marker k ∧ t.written k = s.written k
  file : t.cache.cacheDir.file key ≠ none
  marker : s.cache.cacheDir.marker key = true → t.cache.cacheDir.marker key = true

variable {opened : PieceStorage}

lemma duringCall_openPiece (h : s.openPiece f key = some opened) : DuringCall key s opened ∧
      opened.cache.cacheDir.marker = s.cache.cacheDir.marker := by
  unfold openPiece at h
  split at h
  · next hexists =>
    cases h
    rw [Bool.and_eq_true] at hexists
    exact ⟨⟨fun _ _ => ⟨rfl, rfl, rfl⟩, Option.isSome_iff_ne_none.mp hexists.1, id⟩, rfl⟩
  · split at h
    · cases h
    · cases h
      refine ⟨⟨fun k hk => ⟨?_, rfl, ?_⟩, ?_, id⟩, rfl⟩
      · exact update_of_ne hk _ _
      · exact update_of_ne hk _ _
      · simp

lemma DuringCall.putBlock {t : PieceStorage} (h : DuringCall key s t) (offset : ℕ)
    (data : List UInt8) : DuringCall key s (t.putBlock key offset data) := by
  refine ⟨fun k hk => ?_, ?_, h.marker⟩
  · obtain ⟨hfile, hmarker, hwritten⟩ := h.others k hk
    refine ⟨?_, hmarker, ?_⟩
    · exact (update_of_ne hk _ _).trans hfile
    · exact (update_of_ne hk _ _).trans hwritten
  · simp [PieceStorage.putBlock]

lemma DuringCall.putMarker {t : PieceStorage} (h : DuringCall key s t) :
    DuringCall key s (t.putMarker key) := by
  refine ⟨fun k hk => ?_, h.file, fun _ => ?_⟩
  · obtain ⟨hfile, hmarker, hwritten⟩ := h.others k hk
    exact ⟨hfile, (update_of_ne hk _ _).trans hmarker, hwritten⟩
  · simp [PieceStorage.putMarker, createMarker]

lemma writePieceUntil_of_idle {ops : ℕ}
    (h : ops = 0 ∨ f.ensureDir = true ∨ s.openPiece f key = none) :
    s.writePieceUntil f key offset data ops = s := by
  rcases h with rfl | hdir | hopen
  · simp [writePieceUntil]
  · simp [writePieceUntil, writePiece, hdir]
  · by_cases hdir : f.ensureDir = true <;> simp [writePieceUntil, writePiece, hdir, hopen]

lemma writePiece_states (offset : ℕ) (data : List UInt8)
    (hdir : f.ensureDir = false) (hopen : s.openPiece f key = some opened) :
    ∃ block, (s.writePiece f key offset data).1 = opened :: opened.putBlock key offset block ::
        if f.write = none ∧ f.createMarker = false then
          [(opened.putBlock key offset block).putMarker key] else [] := by
  unfold writePiece
  rw [hdir, hopen]
  cases hwrite : f.write with
  | some n => exact ⟨data.take n, by simp⟩
  | none =>
    refine ⟨data, ?_⟩
    by_cases hmarker : f.createMarker = true <;> simp [hmarker]

lemma duringCall_writePieceUntil (offset : ℕ) (data : List UInt8)
    {ops : ℕ} (hops : ops ≠ 0) (hdir : f.ensureDir = false)
    (hopen : s.openPiece f key = some opened) :
    DuringCall key s (s.writePieceUntil f key offset data ops) ∧
      ((s.writePieceUntil f key offset data ops).cache.cacheDir.marker key = true ↔
        s.cache.cacheDir.marker key = true ∨
          3 ≤ ops ∧ f.write = none ∧ f.createMarker = false) := by
  obtain ⟨hduring, hmarker⟩ := duringCall_openPiece hopen
  obtain ⟨block, hstates⟩ := writePiece_states offset data hdir hopen
  have hput := hduring.putBlock offset block
  unfold writePieceUntil
  rw [hstates]
  -- the marker comes third; the two operations before it leave it alone
  rcases ops with - | - | - | ops
  · exact absurd rfl hops
  · exact ⟨hduring, by simp [hmarker]⟩
  · exact ⟨hput, by simp [putBlock, hmarker]⟩
  · split
    · next hcreated =>
      have hlast : (opened.putBlock key offset block).putMarker key =
          ((opened :: opened.putBlock key offset block ::
            [(opened.putBlock key offset block).putMarker key]).take (ops + 3)).getLastD s := by
        simp
      rw [← hlast]
      exact ⟨hput.putMarker, by simp [putMarker, createMarker, hcreated]⟩
    · next hfailed =>
      have hlast : opened.putBlock key offset block =
          ((opened :: opened.putBlock key offset block :: []).take (ops + 3)).getLastD s := by
        simp
      rw [← hlast]
      exact ⟨hput, by simp [putBlock, hmarker, hfailed]⟩

end Call

lemma tagged_writePiece_iff
    (hs : s.Tagged pieceSize) (f : WriteFaults) (key : Str) (offset : ℕ) (data : List UInt8)
    (ops : ℕ) : (s.writePieceUntil f key offset data ops).Tagged pieceSize ↔
      s.Covered pieceSize (.writePiece f key offset data ops) := by
  by_cases hidle : ops = 0 ∨ f.ensureDir = true ∨ s.openPiece f key = none
  · rw [writePieceUntil_of_idle hidle]
    exact iff_of_true hs (.inr (.inl hidle))
  · obtain ⟨hops, hopens⟩ := not_or.mp hidle
    obtain ⟨hdir, hopen⟩ := not_or.mp hopens
    obtain ⟨opened, hopened⟩ := Option.ne_none_iff_exists'.mp hopen
    obtain ⟨hduring, hmarker⟩ := duringCall_writePieceUntil offset data hops
      (Bool.not_eq_true _ ▸ hdir) hopened
    constructor
    · intro htagged
      by_cases hall : (s.writePieceUntil f key offset data ops).HasAllBlocks pieceSize key
      · exact .inr (.inr (.inr hall))
      · rcases hmarker.mp (htagged key hduring.file hall) with hbefore | hcreated
        · exact .inl hbefore
        · exact .inr (.inr (.inl hcreated))
    · intro hcovered k hfile hmissing
      by_cases hk : k = key
      · subst hk
        rw [hmarker]
        rcases hcovered with hbefore | hnothing | hcreated | hall
        · exact .inl hbefore
        · exact absurd hnothing hidle
        · exact .inr hcreated
        · exact absurd hall hmissing
      · -- the call does not touch the other pieces
        obtain ⟨hsame, hmark, hwritten⟩ := hduring.others k hk
        rw [hmark]
        apply hs k
        · rwa [← hsame]
        · intro hall
          exact hmissing ((hasAllBlocks_congr hwritten).mpr hall)

/-! ### The cache's own operations -/

lemma Tagged.removePiece {c' : CacheManager} {f : Faults} {key : Str}
    (h : Tagged pieceSize { s with cache := c }) (hremove : c.removePiece f key = .ok c') :
    Tagged pieceSize { s with cache := c' } := by
  unfold CacheManager.removePiece at hremove
  split at hremove
  · cases hremove
    exact h
  · split at hremove
    · cases hremove
    · cases hremove
      intro k hfile hmissing
      have hk : c.cacheDir.file k ≠ none → c.cacheDir.marker k = true :=
        fun hfile => h k hfile hmissing
      by_cases hkey : k = key <;> by_cases hmarker : f.unlinkMarker key = true <;>
        simp_all [forgetPiece, removeMarker, removeFile]

section

variable (h : s.Tagged pieceSize)
include h

lemma Tagged.markers (hfile : c.cacheDir.file = s.cache.cacheDir.file)
    (hmarker : ∀ key, s.cache.cacheDir.marker key = true →
      s.HasAllBlocks pieceSize key ∨ c.cacheDir.marker key = true) :
    Tagged pieceSize { s with cache := c } := by
  intro key hpresent hmissing
  have hbefore : s.cache.cacheDir.file key ≠ none := by
    rw [← hfile]
    exact hpresent
  rcases hmarker key (h key hbefore hmissing) with hall | hkept
  · exact absurd hall hmissing
  · exact hkept

lemma Tagged.createMarker (key : Str) : Tagged pieceSize
    { s with cache := { s.cache with cacheDir := s.cache.cacheDir.createMarker key } } := by
  refine h.markers rfl fun k hmarker => .inr ?_
  by_cases hk : k = key
  · simp [Disk.createMarker, hk]
  · exact (update_of_ne hk _ _).trans hmarker

omit h in
lemma kept_tagged : Kept fun c => Tagged pieceSize { s with cache := c } :=
  ⟨Tagged.removePiece, id, id, fun h => h.createMarker _⟩

lemma Tagged.addPiece {key : Str} (hall : s.HasAllBlocks pieceSize key) (now : ℕ) (f : Faults)
    (size : ℕ) : Tagged pieceSize { s with cache := (s.cache.addPiece now f key size).1 } := by
  refine kept_tagged.addPiece h fun _ => h.markers ?_ fun k hmarker => ?_
  · unfold CacheManager.setComplete Disk.removeMarker
    split
    · split <;> rfl
    · rfl
  · by_cases hk : k = key
    · exact .inl (hk ▸ hall)
    · right
      unfold CacheManager.setComplete Disk.removeMarker
      split
      · split
        · exact hmarker
        · exact (update_of_ne hk _ _).trans hmarker
      · exact hmarker

lemma Tagged.step {t : PieceStorage} {a : Action} (ha : s.Covered pieceSize a)
    (hstep : s.step pieceSize a = some t) : t.Tagged pieceSize := by
  cases a with
  | writePiece f key offset data ops =>
    simp only [PieceStorage.step, ite_none_right_eq_some, Option.some.injEq] at hstep
    obtain ⟨-, rfl⟩ := hstep
    exact (tagged_writePiece_iff h f key offset data ops).mpr ha
  | addPiece now f key size =>
    simp only [PieceStorage.step, ite_none_right_eq_some, Option.some.injEq] at hstep
    obtain ⟨⟨-, hall⟩, rfl⟩ := hstep
    exact h.addPiece hall now f size
  | registerIncompletePiece now f key size =>
    simp only [PieceStorage.step, ite_none_right_eq_some, Option.some.injEq] at hstep
    obtain ⟨-, rfl⟩ := hstep
    exact kept_tagged.registerIncompletePiece h fun _ _ _ => h.createMarker key
  | evictLru f =>
    simp only [PieceStorage.step, ite_none_right_eq_some, Option.some.injEq] at hstep
    obtain ⟨-, rfl⟩ := hstep
    exact kept_tagged.evictLru h f

end

/-! ### The next startup -/

/-- The startup finds the file and the marker of a piece as the storage left them. -/
def FoundBy (content : CacheContent) (s : PieceStorage) (key : Str) : Prop :=
  pieceFileContent (content.pieces.getD []) key = s.cache.cacheDir.file key ∧
    markerExists (content.pieces.getD []) key = s.cache.cacheDir.marker key

/-- After a run of covered steps, wherever it stops, the next startup tags every piece it
registers whose file misses a block. The walk also registers a file of that name below another
directory, so the piece is asked to have a file of its own. -/
theorem scan_tags_partial_piece_of_covered_run (pieceSize : Str → ℕ) (s t : PieceStorage)
    (actions : List Action) (content : CacheContent) (maxCacheSize : ℕ) (clock : Str → ℕ)
    (saveFails : Bool) (c : CacheManager) (key : Str) (hs : s.Tagged pieceSize)
    (hcovered : Run.Along (step pieceSize) (Covered pieceSize) s actions)
    (hrun : Run.runFrom (step pieceSize) s actions = some t) (hfound : t.FoundBy content key)
    (hnew : CacheManager.new content maxCacheSize clock saveFails = .ok c)
    (hregistered : key ∈ c.metadata.keys) (hfile : t.cache.cacheDir.file key ≠ none)
    (hmissing : ¬ t.HasAllBlocks pieceSize key) : key ∈ c.incompletePieceKeys := by
  have ht : t.Tagged pieceSize :=
    Run.invariant_of_run_along (fun _ _ _ hinv ha hstep => hinv.step ha hstep) hs hcovered hrun
  apply (CacheManager.mem_incomplete_new hnew key).mpr
  exact ⟨hregistered, hfound.2.trans (ht key hfile hmissing)⟩

def sampleStorage : PieceStorage :=
  ⟨CacheManager.fresh ⟨none, none⟩ 10, fun _ => ∅, true⟩

def sampleMarked : CacheContent :=
  ⟨some [.dir (some sampleHash) [.file (some sampleKey) (some [7]),
    .file (some (sampleKey ++ incompleteSuffix)) (some [])]], none⟩

theorem scan_tags_first_block : ∃ t c, Run.runFrom (step fun _ => 2) sampleStorage
        [.writePiece .none sampleKey 0 [7] 3] = some t ∧
      CacheManager.new sampleMarked 10 (fun _ => 0) false = .ok c ∧
      sampleKey ∈ c.incompletePieceKeys := by
  refine ⟨_, _, rfl, rfl, ?_⟩
  refine scan_tags_partial_piece_of_covered_run (fun _ => 2) sampleStorage _
    [.writePiece .none sampleKey 0 [7] 3] sampleMarked 10 (fun _ => 0) false _ sampleKey
    ?_ ?_ rfl ⟨by decide, by decide⟩ rfl (by decide) (by decide) (by decide)
  · exact fun key hfile => absurd rfl hfile
  · exact ⟨.inr (.inr (.inl ⟨le_refl 3, rfl, rfl⟩)), fun _ _ => trivial⟩

/-- The process stops after the first of the two bytes of a piece reached its file and before
the marker is created; the next startup registers the file and does not tag it. -/
theorem scan_registers_partial_piece_untagged :
    ∃ t content c, Run.runFrom (step fun _ => 2) sampleStorage
        [.writePiece .none sampleKey 0 [7] 2] = some t ∧ t.FoundBy content sampleKey ∧
      CacheManager.new content 10 (fun _ => 0) false = .ok c ∧
      t.cache.cacheDir.file sampleKey = some [7] ∧ ¬ t.HasAllBlocks (fun _ => 2) sampleKey ∧
      sampleKey ∈ c.metadata.keys ∧ sampleKey ∉ c.incompletePieceKeys :=
  ⟨_, ⟨some [.dir (some sampleHash) [.file (some sampleKey) (some [7])]], none⟩, _, rfl,
    ⟨by decide, by decide⟩, rfl, by decide, by decide, by decide, by decide⟩

end PieceStorage

end TorrentFs.Wrapper
