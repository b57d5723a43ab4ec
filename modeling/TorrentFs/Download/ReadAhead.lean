import Mathlib.Order.Interval.Finset.Nat
import TorrentFs.Download.ReadRange
import TorrentFs.Download.Scheduler

/-!
# How much one reader asks for

The window of a reader leaves room for one piece beside it, whereas a read may take several. The
module determines the pieces a single reader asks for, and when they fit into the cache.
-/

namespace TorrentFs.Download

open Word List

def windowQuotient (accessWindowMb cacheCapacityBytes pieceLength : ℕ) : ℕ :=
  min (accessWindowMb * 1024 * 1024) (cacheCapacityBytes - pieceLength) / pieceLength

lemma effectiveWindowPieces_eq_iff (accessWindowMb cacheCapacityBytes pieceLength : ℕ) :
    effectiveWindowPieces accessWindowMb cacheCapacityBytes pieceLength =
        windowQuotient accessWindowMb cacheCapacityBytes pieceLength ↔
      windowQuotient accessWindowMb cacheCapacityBytes pieceLength < 2 ^ 31 := by
  refine ⟨fun h => ?_, fun h => toI32_of_lt h⟩
  unfold effectiveWindowPieces toI32 at h
  split at h <;> omega

/-- The configured priorities of the pieces a reader asks for are not zero. -/
structure PiecePriorityConfig.Raised (config : PiecePriorityConfig) : Prop where
  current : config.currentPriority ≠ 0
  steps : ∀ i, config.stepPriorities i ≠ 0
  windowEdge : config.windowEdgePriority ≠ 0

variable {config : PiecePriorityConfig} {p first last window : ℕ}

lemma wrapI32_sub (hp : p < 2 ^ 31) (h : last < p) : wrapI32 ((p : ℤ) - last) = (p : ℤ) - last := by
  rw [show (p : ℤ) - last = ((p - last : ℕ) : ℤ) by omega]
  exact wrapI32_natCast (by omega)

lemma decidePriority_ne_zero (hrest : config.restPriority = 0) (hp : p < 2 ^ 31)
    (h : decidePriority config p first last window ≠ 0) : first ≤ p ∧ p ≤ last + window := by
  unfold decidePriority at h
  dsimp only at h
  split at h
  · exact absurd rfl h
  · split at h
    · omega
    · next hahead =>
      split at h
      · exact absurd hrest h
      · next hinside =>
        rw [wrapI32_sub hp (by omega)] at hinside
        omega

lemma decidePriority_of_raised (hconfig : config.Raised) (hp : p < 2 ^ 31) (hfirst : first ≤ p)
    (hlast : p ≤ last + window) : decidePriority config p first last window ≠ 0 := by
  unfold decidePriority
  rw [if_neg (by omega)]
  split
  · exact hconfig.current
  · next hahead =>
    rw [if_neg (by rw [wrapI32_sub hp (by omega)]; omega)]
    split
    · exact hconfig.steps _
    · exact hconfig.windowEdge

namespace TorrentLayout

variable (L : TorrentLayout)

def info (infoHash : Except FfiError Text.Str) : TorrentInfo :=
  ⟨infoHash, L.pieceLength, pieceCount L.files L.pieceLength, L.files.sum, some L.files⟩

def fileFirst (i : ℕ) : ℕ := L.fileOffset i / L.pieceLength

def fileLast (i : ℕ) : ℕ := (L.fileOffset i + L.fileSize i - 1) / L.pieceLength

def pieceInfo (i : ℕ) : FilePieceInfo where
  firstPiece := L.fileFirst i
  numPieces := (L.fileLast i - L.fileFirst i + 1 : ℕ)
  fileOffset := L.fileOffset i

def readFirst (i offset : ℕ) : ℕ := (L.fileOffset i + offset) / L.pieceLength

def readLast (i offset size : ℕ) : ℕ :=
  (L.fileOffset i + offset + max 1 (min size (L.fileSize i - offset)) - 1) / L.pieceLength

/-- The bytes of some pieces. Only the last piece of the torrent may be shorter than the others. -/
def bytesOf (pieces : Finset ℕ) : ℕ :=
  ∑ p ∈ pieces, min L.pieceLength (L.files.sum - p * L.pieceLength)

def asked (gradient : List ℤ) : Finset ℕ :=
  (Finset.range gradient.length).filter fun p => gradient.getD p 0 ≠ 0

variable {L} {i offset size : ℕ} {s : PieceScheduler}

lemma gradientFor_eq (hi : i < L.files.length) (hoffset : offset < L.fileSize i)
    (hsize : size < 2 ^ 32) (infoHash : Except FfiError Text.Str) :
    s.gradientFor (L.info infoHash) i offset size (.ok (L.pieceInfo i)) =
      some ((List.range (pieceCount L.files L.pieceLength)).map fun p : ℕ =>
        if L.fileFirst i ≤ p ∧ p ≤ L.fileLast i then
          decidePriority s.config p (L.readFirst i offset) (L.readLast i offset size)
            (effectiveWindowPieces s.config.accessWindowMb s.cacheCapacityBytes L.pieceLength)
        else 0) := by
  have hpos := L.pieceLength_pos
  have hpieces := L.pieces_lt
  have htotal := L.total_lt
  have hend := L.fileOffset_add_fileSize_le hi
  have hlast : L.fileLast i < pieceCount L.files L.pieceLength :=
    L.div_lt_pieceCount (by omega)
  have hfirst : L.fileFirst i ≤ L.fileLast i := Nat.div_le_div_right (by omega)
  have hread : L.readFirst i offset < pieceCount L.files L.pieceLength :=
    L.div_lt_pieceCount (by omega)
  have hreadLast : L.readLast i offset size < pieceCount L.files L.pieceLength :=
    L.div_lt_pieceCount (by omega)
  have hfileEnd : (L.fileFirst i : ℤ) + ((L.fileLast i - L.fileFirst i + 1 : ℕ) : ℤ) - 1 =
      L.fileLast i := by omega
  have hclamped : min size (L.fileOffset i + L.fileSize i - (L.fileOffset i + offset)) % 2 ^ 32 =
      min size (L.fileSize i - offset) := by
    rw [Nat.add_sub_add_left, Nat.mod_eq_of_lt (by omega)]
  -- a read of no bytes has the piece of its offset
  have hcurEnd : (if 0 < min size (L.fileSize i - offset) then
      toI32 ((addU64 (L.fileOffset i + offset) (min size (L.fileSize i - offset)) - 1) /
        L.pieceLength) else (L.readFirst i offset : ℤ)) = L.readLast i offset size := by
    split
    · next hsome =>
      rw [addU64_of_lt (by omega), ← toI32_of_lt (n := L.readLast i offset size) (by omega),
        readLast, max_eq_right hsome]
    · next hnone =>
      rw [readLast, max_eq_left (by omega), readFirst, Nat.add_sub_cancel]
  unfold PieceScheduler.gradientFor info pieceInfo
  dsimp only
  rw [toI32_of_lt hpieces, if_neg (by omega), toU64_natCast (by omega),
    wrapI32_natCast (n := L.fileFirst i) (by omega),
    wrapI32_natCast (n := L.fileLast i - L.fileFirst i + 1) (by omega), hfileEnd,
    wrapI32_natCast (n := L.fileLast i) (by omega), if_neg (by omega),
    if_pos (Int.natCast_nonneg i), Int.toNat_natCast i, addU64_of_lt (by omega : _ + offset < _),
    show L.files.getD i 0 = L.fileSize i from rfl, addU64_of_lt (by omega : _ + L.fileSize i < _),
    if_neg (by omega), hclamped, ← readFirst, toI32_of_lt (n := L.readFirst i offset) (by omega),
    hcurEnd, Int.toNat_natCast]
  congr 2
  ext p
  congr 1
  rw [eq_iff_iff]
  omega

/-- Some pieces fit into the cache, unless those of the read alone do not. -/
def FitsCache (L : TorrentLayout) (s : PieceScheduler) (i offset size : ℕ) (pieces : Finset ℕ) :
    Prop :=
  L.bytesOf pieces ≤ s.cacheCapacityBytes ∨ s.cacheCapacityBytes <
    L.bytesOf (Finset.Icc (L.readFirst i offset) (L.readLast i offset size))

def reach (L : TorrentLayout) (s : PieceScheduler) (i offset size : ℕ) : Finset ℕ :=
  Finset.Icc (L.readFirst i offset) (min (L.fileLast i) (L.readLast i offset size +
    windowQuotient s.config.accessWindowMb s.cacheCapacityBytes L.pieceLength))

lemma mem_asked {n : ℕ} {f : ℕ → ℤ} {p : ℕ} :
    p ∈ asked ((List.range n).map f) ↔ p < n ∧ f p ≠ 0 := by
  simp only [asked, Finset.mem_filter, Finset.mem_range, length_map, length_range]
  refine and_congr_right fun hp => ?_
  simp [getD_eq_getElem?_getD, hp]

lemma FitsCache.mono {pieces pieces' : Finset ℕ} (hsub : pieces ⊆ pieces')
    (h : L.FitsCache s i offset size pieces') : L.FitsCache s i offset size pieces :=
  h.imp_left (Finset.sum_le_sum_of_subset hsub).trans

/-- A reader asks for the pieces of its read and of the window, less those with the priority zero.
The window is the quotient, and what the reader asks for fits into the cache, if the quotient is a
signed 32-bit number and all of these pieces fit; and, if no priority is zero, only then. -/
theorem asked_fits_iff (L : TorrentLayout) (s : PieceScheduler) {i offset size : ℕ}
    (hi : i < L.files.length) (hoffset : offset < L.fileSize i) (hsize : size < 2 ^ 32)
    (hrest : s.config.restPriority = 0) (infoHash : Except FfiError Text.Str) :
    let quotient := windowQuotient s.config.accessWindowMb s.cacheCapacityBytes L.pieceLength
    let window := effectiveWindowPieces s.config.accessWindowMb s.cacheCapacityBytes L.pieceLength
    ∃ gradient, s.gradientFor (L.info infoHash) i offset size (.ok (L.pieceInfo i)) =
        some gradient ∧
      (quotient < 2 ^ 31 ∧ L.FitsCache s i offset size (L.reach s i offset size) →
        window = quotient ∧ L.FitsCache s i offset size (asked gradient)) ∧
      (s.config.Raised → window = quotient ∧ L.FitsCache s i offset size (asked gradient) →
        quotient < 2 ^ 31 ∧ L.FitsCache s i offset size (L.reach s i offset size)) := by
  intro quotient window
  have hpieces := L.pieces_lt
  have hend := L.fileOffset_add_fileSize_le hi
  have hlast : L.fileLast i < pieceCount L.files L.pieceLength := L.div_lt_pieceCount (by omega)
  have hfirst : L.fileFirst i ≤ L.readFirst i offset := Nat.div_le_div_right (by omega)
  refine ⟨_, gradientFor_eq hi hoffset hsize infoHash, fun ⟨hquotient, hfits⟩ => ?_,
    fun hraised ⟨hwindow, hfits⟩ => ?_⟩
  · have hwindow := (effectiveWindowPieces_eq_iff _ _ _).mpr hquotient
    refine ⟨hwindow, hfits.mono fun p hp => ?_⟩
    obtain ⟨hp, hne⟩ := mem_asked.mp hp
    rw [hwindow] at hne
    split at hne
    · have := decidePriority_ne_zero hrest (by omega) hne
      exact Finset.mem_Icc.mpr ⟨by omega, by omega⟩
    · exact absurd rfl hne
  · refine ⟨(effectiveWindowPieces_eq_iff _ _ _).mp hwindow, hfits.mono fun p hp => ?_⟩
    obtain ⟨hlow, hhigh⟩ := Finset.mem_Icc.mp hp
    refine mem_asked.mpr ⟨by omega, ?_⟩
    have hnarrow : effectiveWindowPieces s.config.accessWindowMb s.cacheCapacityBytes
      L.pieceLength = quotient := hwindow
    rw [if_pos (by omega), hnarrow]
    exact decidePriority_of_raised hraised (by omega) hlow (by omega)

def fourPieces : TorrentLayout where
  files := [16]
  pieceLength := 4
  data := List.replicate 16 0
  data_length := rfl
  pieceLength_pos := twoFiles.pieceLength_pos
  total_pos := by decide
  total_lt := by decide
  pieces_lt := by decide

def schedulerOf (accessWindowMb cacheCapacityBytes : ℕ) : PieceScheduler :=
  .new ⟨accessWindowMb, 7, [6, 5, 4, 3].get, 1, 0⟩ cacheCapacityBytes

theorem asked_fits_first_piece : ∃ gradient,
    (schedulerOf 1 12).gradientFor (fourPieces.info (.ok [])) 0 0 4 (.ok (fourPieces.pieceInfo 0)) =
      some gradient ∧ effectiveWindowPieces 1 12 4 = 2 ∧
      fourPieces.FitsCache (schedulerOf 1 12) 0 0 4 (asked gradient) := by
  obtain ⟨gradient, hgradient, hfits, -⟩ := @asked_fits_iff fourPieces (schedulerOf 1 12) 0 0 4
    (by decide) (by decide) (by decide) rfl (.ok [])
  exact ⟨gradient, hgradient, hfits ⟨by decide, .inl (by decide)⟩⟩

/-- With the same cache a read of two pieces asks for all four. A window of four gigabytes over
pieces of one byte is narrowed to nothing. -/
theorem two_pieces_and_window_exceed_cache :
    (∃ gradient, (schedulerOf 1 12).gradientFor (fourPieces.info (.ok [])) 0 0 8
        (.ok (fourPieces.pieceInfo 0)) = some gradient ∧
      fourPieces.bytesOf (asked gradient) = 16 ∧ fourPieces.bytesOf (Finset.Icc 0 1) = 8) ∧
    effectiveWindowPieces 4096 (2 ^ 33) 1 = 0 ∧ windowQuotient 4096 (2 ^ 33) 1 = 2 ^ 32 :=
  ⟨⟨[7, 7, 6, 5], by decide, by decide, by decide⟩, by decide, by decide⟩

end TorrentLayout

end TorrentFs.Download
