import Mathlib.Data.Nat.Find
import TorrentFs.Download.ReadRange

/-!
# Where the bytes of a read come from

`read_from_disk` rejects a piece file that is shorter than its piece, and takes from a longer one
all bytes the range reaches: the bounds of a chunk are those of the file, not those of the piece.
So a file that is too long puts bytes of its own where the next piece begins, unless its piece is
the last of the range.

A byte is taken from a place of a file when it is the byte of that place whatever the files hold,
so the main statement is about all files of given lengths.
-/

namespace TorrentFs.Download

open Word Bytes List Option Nat

namespace ReadRange

variable {r : ReadRange} {pieces pieces' : ℤ → Option (List UInt8)} {data : List UInt8}

def fileByte (r : ReadRange) (pieces : ℤ → Option (List UInt8)) (position : ℕ) : Option UInt8 :=
  (pieces ((position / r.pieceLength : ℕ) : ℤ)).bind fun file => file[position % r.pieceLength]?

/-- Each byte is the one of its position in the range. -/
def FromFiles (r : ReadRange) (pieces : ℤ → Option (List UInt8)) (bytes : List UInt8) : Prop :=
  ∀ k < bytes.length, bytes[k]? = r.fileByte pieces (r.absoluteOffset + k)

/-- A buffer of the requested length with each byte from its place. -/
structure Placed (r : ReadRange) (pieces : ℤ → Option (List UInt8)) (bytes : List UInt8) :
    Prop where
  length : bytes.length = r.size
  source : r.FromFiles pieces bytes

/-- The range begins in the piece `first` of the torrent `data` and ends in the piece `last`. -/
structure Covers (r : ReadRange) (data : List UInt8) (first last : ℕ) : Prop extends
    r.Fits data where
  start : r.startPiece = first
  stop : r.endPiece = last
  first_le : first * r.pieceLength ≤ r.absoluteOffset
  lt_first : r.absoluteOffset < (first + 1) * r.pieceLength
  last_lt : last * r.pieceLength < r.endOffset
  end_le_last : r.endOffset ≤ (last + 1) * r.pieceLength

/-! ### One piece -/

lemma readLoop_cons_cases (r : ReadRange) (pieces : ℤ → Option (List UInt8)) (piece : ℤ)
    (rest : List ℤ) (s : ReadProgress) :
    ((r.overlaps piece = false ∨ ∃ file, pieces piece = some file ∧
          expectedPieceSize piece r.pieceLength r.numPieces r.totalSize ≤ file.length ∧
          pieceChunkBounds file piece r.pieceLength r.absoluteOffset r.endOffset = none) ∧
        ∃ t : ReadProgress, t.result = s.result ∧
          r.readLoop pieces (piece :: rest) s = r.readLoop pieces rest t) ∨
      (∃ t e, t.result = s.result ∧ r.readLoop pieces (piece :: rest) s = (t, some e)) ∨
      ∃ file a b, pieces piece = some file ∧
        expectedPieceSize piece r.pieceLength r.numPieces r.totalSize ≤ file.length ∧
        pieceChunkBounds file piece r.pieceLength r.absoluteOffset r.endOffset = some (a, b) ∧
        r.readLoop pieces (piece :: rest) s = if r.size ≤ (s.result ++ slice file a b).length then
            (⟨s.result ++ slice file a b, s.accessed ++ [piece]⟩, none)
          else r.readLoop pieces rest ⟨s.result ++ slice file a b, s.accessed ++ [piece]⟩ := by
  rw [readLoop]
  cases hfile : pieces piece with
  | none =>
    cases hover : r.overlaps piece with
    | true => exact .inr (.inl ⟨s, _, rfl, rfl⟩)
    | false => exact .inl ⟨.inl rfl, s, rfl, rfl⟩
  | some file =>
    dsimp only
    by_cases hempty : file = []
    · rw [if_pos hempty]
      cases hover : r.overlaps piece with
      | true => exact .inr (.inl ⟨⟨s.result, s.accessed ++ [piece]⟩, _, rfl, rfl⟩)
      | false => exact .inl ⟨.inl rfl, ⟨s.result, s.accessed ++ [piece]⟩, rfl, rfl⟩
    · rw [if_neg hempty]
      by_cases hshort : file.length <
          expectedPieceSize piece r.pieceLength r.numPieces r.totalSize
      · rw [if_pos hshort]
        cases hover : r.overlaps piece with
        | true => exact .inr (.inl ⟨⟨s.result, s.accessed ++ [piece]⟩, _, rfl, rfl⟩)
        | false => exact .inl ⟨.inl rfl, ⟨s.result, s.accessed ++ [piece]⟩, rfl, rfl⟩
      · rw [if_neg hshort]
        rcases hbounds : pieceChunkBounds file piece r.pieceLength r.absoluteOffset
            r.endOffset with _ | ⟨a, b⟩
        · refine .inl ⟨.inr ⟨file, rfl, Nat.not_lt.mp hshort, hbounds⟩, ?_⟩
          exact ⟨⟨s.result, s.accessed ++ [piece]⟩, rfl, rfl⟩
        · exact .inr (.inr ⟨file, a, b, rfl, Nat.not_lt.mp hshort, hbounds, rfl⟩)

variable {file : List UInt8}

lemma readLoop_cons_file {piece : ℤ} {rest : List ℤ} {s : ReadProgress}
    {a b : ℕ} (hfile : pieces piece = some file) (hne : file ≠ [])
    (hlen : expectedPieceSize piece r.pieceLength r.numPieces r.totalSize ≤ file.length)
    (hbounds : pieceChunkBounds file piece r.pieceLength r.absoluteOffset r.endOffset =
      some (a, b)) : r.readLoop pieces (piece :: rest) s =
      if r.size ≤ (s.result ++ slice file a b).length then
        (⟨s.result ++ slice file a b, s.accessed ++ [piece]⟩, none)
      else r.readLoop pieces rest ⟨s.result ++ slice file a b, s.accessed ++ [piece]⟩ := by
  rw [readLoop, hfile]
  dsimp only
  rw [if_neg hne, if_neg (Nat.not_lt.mpr hlen), hbounds]

lemma prefix_readLoop (r : ReadRange) (pieces : ℤ → Option (List UInt8)) (ps : List ℤ)
    (s : ReadProgress) : s.result <+: (r.readLoop pieces ps s).1.result := by
  induction ps generalizing s with
  | nil => exact prefix_refl _
  | cons piece rest ih =>
    rcases readLoop_cons_cases r pieces piece rest s with
      ⟨-, t, hresult, heq⟩ | ⟨t, e, hresult, heq⟩ | ⟨file, a, b, -, -, -, heq⟩
    · rw [heq, ← hresult]
      exact ih t
    · have hsame : (r.readLoop pieces (piece :: rest) s).1.result = s.result := by
        rw [heq]
        exact hresult
      exact ⟨[], by rw [append_nil, hsame]⟩
    · rw [heq]
      split
      · exact prefix_append _ _
      · exact (prefix_append s.result (slice file a b)).trans (ih ⟨_, _⟩)

lemma readLoop_congr_length (h : ∀ p, (pieces p).map List.length = (pieces' p).map List.length)
    (ps : List ℤ) (s s' : ReadProgress) (hs : s.result.length = s'.result.length) :
    (r.readLoop pieces ps s).2 = (r.readLoop pieces' ps s').2 ∧
      (r.readLoop pieces ps s).1.result.length = (r.readLoop pieces' ps s').1.result.length := by
  induction ps generalizing s s' with
  | nil => exact ⟨rfl, hs⟩
  | cons piece rest ih =>
    rw [readLoop, readLoop]
    have hpiece := h piece
    cases hfile : pieces piece with
    | none =>
      cases hfile' : pieces' piece with
      | some file' => simp [hfile, hfile'] at hpiece
      | none =>
        dsimp only
        split
        · exact ⟨rfl, hs⟩
        · exact ih _ _ hs
    | some file =>
      cases hfile' : pieces' piece with
      | none => simp [hfile, hfile'] at hpiece
      | some file' =>
        have hlen : file.length = file'.length := by
          simpa [hfile, hfile'] using hpiece
        have hempty : file = [] ↔ file' = [] := by
          rw [← length_eq_zero_iff, ← length_eq_zero_iff, hlen]
        have hbounds : ∀ p l a e, pieceChunkBounds file p l a e =
            pieceChunkBounds file' p l a e := by
          intro p l a e
          rw [pieceChunkBounds, pieceChunkBounds, hlen]
        simp only [hempty, hbounds, hlen]
        split
        · split
          · exact ⟨rfl, hs⟩
          · exact ih _ _ hs
        · split
          · split
            · exact ⟨rfl, hs⟩
            · exact ih _ _ hs
          · split
            · exact ih _ _ hs
            · next a b _ =>
              have hchunk : (s.result ++ slice file a b).length =
                  (s'.result ++ slice file' a b).length := by
                rw [length_append, length_append, hs, length_slice, length_slice,
                  hlen]
              rw [hchunk]
              split
              · exact ⟨rfl, hchunk⟩
              · exact ih _ _ hchunk

lemma readFromDisk_eq_ok_iff {bytes : List UInt8} : (r.readFromDisk pieces).2 = .ok bytes ↔
      (r.readLoop pieces r.pieceRange ⟨[], []⟩).2 = none ∧
        (r.readLoop pieces r.pieceRange ⟨[], []⟩).1.result = bytes ∧ r.size ≤ bytes.length := by
  rw [readFromDisk]
  rcases r.readLoop pieces r.pieceRange ⟨[], []⟩ with ⟨s, _ | e⟩
  · dsimp only
    split
    · next hshort =>
      constructor
      · intro h
        cases h
      · rintro ⟨-, rfl, hsize⟩
        omega
    · next henough =>
      constructor
      · intro h
        cases h
        exact ⟨rfl, rfl, by omega⟩
      · rintro ⟨-, rfl, -⟩
        rfl
  · constructor
    · intro h
      cases h
    · rintro ⟨h, -⟩
      cases h

/-! ### Pieces with exact files -/

/-- The loop has collected the bytes of the range before piece `p`, each from its place. -/
structure Collected (r : ReadRange) (pieces : ℤ → Option (List UInt8)) (p : ℕ)
    (result : List UInt8) : Prop where
  length : result.length = p * r.pieceLength - r.absoluteOffset
  source : r.FromFiles pieces result

lemma fileByte_of_mem {position p : ℕ} (hlow : p * r.pieceLength ≤ position)
    (hhigh : position < (p + 1) * r.pieceLength) : r.fileByte pieces position =
      (pieces (p : ℤ)).bind fun file => file[position - p * r.pieceLength]? := by
  have hdiv : position / r.pieceLength = p := Nat.div_eq_of_lt_le hlow hhigh
  have hmod : position % r.pieceLength = position - p * r.pieceLength := by
    rw [mod_def, hdiv, Nat.mul_comm]
  rw [fileByte, hdiv, hmod]

lemma Collected.append {p e : ℕ} {result : List UInt8} (h : r.Collected pieces p result)
    (hfile : pieces (p : ℤ) = some file) (he : e ≤ (p + 1) * r.pieceLength) :
    r.FromFiles pieces (result ++
      slice file (max r.absoluteOffset (p * r.pieceLength) - p * r.pieceLength)
        (e - p * r.pieceLength)) := by
  intro k hk
  by_cases hbefore : k < result.length
  · rw [getElem?_append_left hbefore]
    exact h.source k hbefore
  · rw [getElem?_append_right (Nat.not_lt.mp hbefore)]
    have hlength := h.length
    rw [length_append, length_slice] at hk
    -- what was collected ends where the chunk begins
    rw [fileByte_of_mem (p := p) (by omega) (by omega), hfile, bind_some, slice,
      getElem?_drop, getElem?_take_of_lt (by omega)]
    congr 1
    omega

lemma pieceChunkBounds_file (h : Fits r data) {p : ℕ}
    (hfit : p * r.pieceLength + file.length < 2 ^ 64) :
    pieceChunkBounds file p r.pieceLength r.absoluteOffset r.endOffset =
      if max r.absoluteOffset (p * r.pieceLength) <
          min r.endOffset (p * r.pieceLength + file.length)
      then some (max r.absoluteOffset (p * r.pieceLength) - p * r.pieceLength,
        min r.endOffset (p * r.pieceLength + file.length) - p * r.pieceLength) else none := by
  have hple := Nat.le_mul_of_pos_right p h.length_pos
  rw [pieceChunkBounds, toU64_natCast (by omega), mulU64_of_lt (by omega),
    addU64_of_lt (by omega)]

section Loop

variable {first last : ℕ} (h : r.Covers data first last)

include h

variable {p : ℕ} {bytes : List UInt8}

lemma Covers.expected_of_lt (hp : p < last) :
    expectedPieceSize p r.pieceLength r.numPieces r.totalSize = r.pieceLength := by
  have hmono : (p + 1) * r.pieceLength ≤ last * r.pieceLength := Nat.mul_le_mul_right _ hp
  have hlast := h.last_lt
  have hend := h.end_le
  have hstep : (p + 1) * r.pieceLength = p * r.pieceLength + r.pieceLength := succ_mul _ _
  have hnum : (p : ℤ) < r.numPieces := by
    rw [h.pieces]
    exact_mod_cast (lt_pieces_iff data h.length_pos p).mpr (by omega)
  rw [expectedPieceSize_eq h.toFits hnum, pieceBytes, length_slice]
  omega

lemma Covers.expected_last : r.endOffset ≤ last * r.pieceLength +
      expectedPieceSize last r.pieceLength r.numPieces r.totalSize := by
  have hlast := h.last_lt
  have hend := h.end_le
  have hend' := h.end_le_last
  have hnum : (last : ℤ) < r.numPieces := by
    rw [h.pieces]
    exact_mod_cast (lt_pieces_iff data h.length_pos last).mpr (by omega)
  rw [expectedPieceSize_eq h.toFits hnum, pieceBytes, length_slice]
  omega

lemma Covers.inside (hfirst : first ≤ p) (hp : p < last) :
    (p + 1) * r.pieceLength = p * r.pieceLength + r.pieceLength ∧
      r.absoluteOffset < (p + 1) * r.pieceLength ∧ (p + 1) * r.pieceLength < r.endOffset ∧
      r.endOffset ≤ data.length := by
  have hlow : (first + 1) * r.pieceLength ≤ (p + 1) * r.pieceLength :=
    Nat.mul_le_mul_right _ (by omega)
  have hhigh : (p + 1) * r.pieceLength ≤ last * r.pieceLength := Nat.mul_le_mul_right _ hp
  exact ⟨succ_mul _ _, h.lt_first.trans_le hlow, hhigh.trans_lt h.last_lt, h.end_le⟩

lemma Covers.overlaps_of_lt (hfirst : first ≤ p) (hp : p < last) : r.overlaps p = true := by
  obtain ⟨hstep, hstart, hlast, hend⟩ := h.inside hfirst hp
  have hdata := h.data_lt
  have hple := Nat.le_mul_of_pos_right p h.length_pos
  rw [overlaps, toU64_natCast (by omega), mulU64_of_lt (by omega), addU64_of_lt (by omega),
    Bool.and_eq_true, decide_eq_true_eq, decide_eq_true_eq]
  omega

lemma Covers.chunk_of_lt {file : List UInt8} (hfirst : first ≤ p) (hp : p < last)
    (hlen : r.pieceLength ≤ file.length) (hfit : p * r.pieceLength + file.length < 2 ^ 64) :
    pieceChunkBounds file p r.pieceLength r.absoluteOffset r.endOffset =
      some (max r.absoluteOffset (p * r.pieceLength) - p * r.pieceLength,
        min r.endOffset (p * r.pieceLength + file.length) - p * r.pieceLength) := by
  obtain ⟨hstep, hstart, hlast, hend⟩ := h.inside hfirst hp
  have hpos := h.length_pos
  rw [pieceChunkBounds_file h.toFits hfit, if_pos (by omega)]

lemma Covers.readLoop_exact_cons (rest : List ℤ) {s : ReadProgress} (hfirst : first ≤ p)
    (hp : p < last) (hexact : (pieces p).map List.length = some r.pieceLength)
    (hs : r.Collected pieces p s.result) : ∃ t : ReadProgress, r.Collected pieces (p + 1) t.result ∧
      r.readLoop pieces ((p : ℤ) :: rest) s = r.readLoop pieces rest t := by
  obtain ⟨file, hfile, hlen⟩ := Option.map_eq_some_iff.mp hexact
  obtain ⟨hstep, hstart, hlast, hend⟩ := h.inside hfirst hp
  have hsize := h.size
  have hpos := h.length_pos
  have hdata := h.data_lt
  have hne : file ≠ [] := by
    rw [← length_pos_iff, hlen]
    exact hpos
  have hbounds := h.chunk_of_lt hfirst hp (le_of_eq hlen.symm) (by omega)
  set e := min r.endOffset (p * r.pieceLength + file.length) with he
  have hlength : (s.result ++ slice file
      (max r.absoluteOffset (p * r.pieceLength) - p * r.pieceLength)
      (e - p * r.pieceLength)).length = (p + 1) * r.pieceLength - r.absoluteOffset := by
    rw [length_append, length_slice, hs.length]
    omega
  refine ⟨⟨_, s.accessed ++ [(p : ℤ)]⟩, ⟨hlength, hs.append hfile (by omega)⟩, ?_⟩
  rw [readLoop_cons_file hfile hne (by rw [h.expected_of_lt hp, hlen]) hbounds,
    if_neg (by rw [hlength]; omega)]

lemma Covers.readLoop_exact (n : ℕ) {m : ℕ} {s : ReadProgress} (hfirst : first ≤ p)
    (hn : p + n ≤ last)
    (hexact : ∀ q, p ≤ q → q < p + n → (pieces (q : ℕ)).map List.length = some r.pieceLength)
    (hs : r.Collected pieces p s.result) : ∃ t : ReadProgress, r.Collected pieces (p + n) t.result ∧
      r.readLoop pieces (piecesFrom p (n + m)) s =
        r.readLoop pieces (piecesFrom ((p + n : ℕ) : ℤ) m) t := by
  induction n generalizing p s with
  | zero => exact ⟨s, hs, by rw [Nat.zero_add, Nat.add_zero]⟩
  | succ n ih =>
    obtain ⟨t, ht, heq⟩ := h.readLoop_exact_cons (piecesFrom ((p : ℤ) + 1) (n + m)) hfirst
      (by omega) (hexact p le_rfl (by omega)) hs
    obtain ⟨u, hu, hloop⟩ := ih (p := p + 1) (s := t) (by omega) (by omega)
      (fun q hq hlt => hexact q (by omega) (by omega)) ht
    rw [show p + 1 + n = p + (n + 1) by omega] at hu hloop
    refine ⟨u, hu, ?_⟩
    rw [show n + 1 + m = n + m + 1 by omega, piecesFrom, heq, ← hloop]
    rfl

lemma Covers.collected_nil : r.Collected pieces first [] := by
  refine ⟨?_, fun k hk => absurd hk (Nat.not_lt_zero k)⟩
  rw [length_nil, Nat.sub_eq_zero_of_le h.first_le]

lemma Covers.first_le_last : first ≤ last := by
  have hlt : first * r.pieceLength < (last + 1) * r.pieceLength := by
    have := h.first_le
    have := h.start_lt
    have := h.end_le_last
    omega
  exact Nat.lt_add_one_iff.mp (Nat.lt_of_mul_lt_mul_right hlt)

lemma Covers.pieceRange_eq : r.pieceRange = piecesFrom first (last - first + 1) := by
  have hle := h.first_le_last
  rw [pieceRange, h.start, h.stop]
  congr 1
  omega

lemma Covers.reached (hfirst : first ≤ p) (hp : p ≤ last)
    (hexact : ∀ q : ℕ, first ≤ q → q < p → (pieces q).map List.length = some r.pieceLength) :
    ∃ t : ReadProgress, r.Collected pieces p t.result ∧ r.readLoop pieces r.pieceRange ⟨[], []⟩ =
      r.readLoop pieces ((p : ℤ) :: piecesFrom ((p : ℤ) + 1) (last - p)) t := by
  obtain ⟨t, ht, hloop⟩ := h.readLoop_exact (p - first) (m := last - p + 1) (s := ⟨[], []⟩) le_rfl
    (by omega) (fun q hq hlt => hexact q hq (by omega)) h.collected_nil
  rw [show first + (p - first) = p by omega] at ht hloop
  exact ⟨t, ht, by rw [h.pieceRange_eq, show last - first + 1 = p - first + (last - p + 1) by omega,
    hloop, piecesFrom]⟩

lemma Covers.placed_of_exact (hfit : ∀ file, pieces (last : ℤ) = some file →
      last * r.pieceLength + file.length < 2 ^ 64)
    (hexact : ∀ p : ℕ, first ≤ p → p < last → (pieces p).map List.length = some r.pieceLength)
    (hok : (r.readFromDisk pieces).2 = .ok bytes) : r.Placed pieces bytes := by
  obtain ⟨hnone, hbytes, hsize⟩ := readFromDisk_eq_ok_iff.mp hok
  obtain ⟨t, ht, hloop⟩ := h.reached h.first_le_last le_rfl hexact
  rw [Nat.sub_self, piecesFrom] at hloop
  rw [hloop] at hnone hbytes
  have hlast := h.last_lt
  have hend := h.end_le_last
  have hrange := h.start_lt
  have hclamped := h.size
  -- without the last piece the read is short
  have hmissing : t.result.length < r.size := by
    rw [ht.length]
    omega
  rcases readLoop_cons_cases r pieces last [] t with
    ⟨-, u, hresult, heq⟩ | ⟨u, e, -, heq⟩ | ⟨file, a, b, hfile, hexpected, hbounds, heq⟩
  · rw [heq, readLoop, hresult] at hbytes
    rw [hbytes] at hmissing
    omega
  · rw [heq] at hnone
    cases hnone
  · rw [heq, readLoop, ite_self] at hbytes
    have hreach := h.expected_last
    rw [pieceChunkBounds_file h.toFits (hfit file hfile), if_pos (by omega)] at hbounds
    cases hbounds
    rw [min_eq_left (a := r.endOffset) (by omega)] at hbytes
    subst hbytes
    refine ⟨?_, ht.append hfile hend⟩
    rw [length_append, length_slice, ht.length]
    omega

lemma Covers.exists_ok {file : List UInt8}
    (hexact : ∀ p : ℕ, first ≤ p → p < last → (pieces p).map List.length = some r.pieceLength)
    (hfile : pieces (last : ℤ) = some file)
    (hlen : expectedPieceSize last r.pieceLength r.numPieces r.totalSize ≤ file.length)
    (hfit : last * r.pieceLength + file.length < 2 ^ 64) :
    ∃ bytes, (r.readFromDisk pieces).2 = .ok bytes := by
  obtain ⟨t, ht, hloop⟩ := h.reached h.first_le_last le_rfl hexact
  have hreach := h.expected_last
  have hlast := h.last_lt
  have hrange := h.start_lt
  have hclamped := h.size
  have hne : file ≠ [] := by
    rw [← length_pos_iff]
    omega
  have hbounds : pieceChunkBounds file last r.pieceLength r.absoluteOffset r.endOffset =
      some (max r.absoluteOffset (last * r.pieceLength) - last * r.pieceLength,
        r.endOffset - last * r.pieceLength) := by
    rw [pieceChunkBounds_file h.toFits hfit, if_pos (by omega), min_eq_left (by omega)]
  have hsize : r.size ≤ (t.result ++ slice file
      (max r.absoluteOffset (last * r.pieceLength) - last * r.pieceLength)
      (r.endOffset - last * r.pieceLength)).length := by
    rw [length_append, length_slice, ht.length]
    omega
  rw [readLoop_cons_file hfile hne hlen hbounds, if_pos hsize] at hloop
  exact ⟨_, readFromDisk_eq_ok_iff.mpr ⟨by rw [hloop], rfl, by rwa [hloop]⟩⟩

lemma Covers.before {b : ℕ} (hsize : r.size < 2 ^ 32) (hlt : first < b) (hle : b ≤ last) :
    ∃ r', r.before b = some r' ∧ r'.Covers data first (b - 1) ∧ r'.pieceLength = r.pieceLength ∧
      r'.absoluteOffset = r.absoluteOffset ∧ r'.numPieces = r.numPieces ∧
      r'.totalSize = r.totalSize ∧ r'.size = b * r.pieceLength - r.absoluteOffset := by
  have hpos := h.length_pos
  have hlow : (first + 1) * r.pieceLength ≤ b * r.pieceLength := Nat.mul_le_mul_right _ hlt
  have hhigh : b * r.pieceLength ≤ last * r.pieceLength := Nat.mul_le_mul_right _ hle
  have hstep : (b - 1 + 1) * r.pieceLength = (b - 1) * r.pieceLength + r.pieceLength :=
    succ_mul _ _
  have hprev : b - 1 + 1 = b := by omega
  have hstart := h.lt_first
  have hlast := h.last_lt
  have hend := h.end_le
  have hdata := h.data_lt
  have hclamped := h.size
  have hb := Nat.le_mul_of_pos_right b hpos
  have hpred : ((b : ℤ) - 1) = ((b - 1 : ℕ) : ℤ) := by omega
  have hbounds : partialReadBounds r.startPiece ((b : ℤ) - 1) r.pieceLength r.absoluteOffset
      r.endOffset = some (b * r.pieceLength, b * r.pieceLength - r.absoluteOffset) := by
    rw [partialReadBounds, h.start, hpred, if_neg (by omega), toU64_natCast (by omega),
      addU64_of_lt (by omega), hprev]
    rw [mulU64_of_lt (by omega), min_eq_right (by omega), if_neg (by omega),
      mod_eq_of_lt (by omega)]
  have heq : r.before b = some { r with
      endPiece := (b : ℤ) - 1
      endOffset := b * r.pieceLength
      size := b * r.pieceLength - r.absoluteOffset } := by
    rw [ReadRange.before, hbounds, map_some]
  refine ⟨_, heq, ?_, rfl, rfl, rfl, rfl, rfl⟩
  rw [hprev] at hstep
  exact
    { length_pos := hpos
      total := h.total
      start_lt := show r.absoluteOffset < b * r.pieceLength by omega
      end_le := show b * r.pieceLength ≤ data.length by omega
      size := rfl
      pieces := h.pieces
      data_lt := hdata
      start := h.start
      stop := hpred
      first_le := h.first_le
      lt_first := hstart
      last_lt := show (b - 1) * r.pieceLength < b * r.pieceLength by omega
      end_le_last := show b * r.pieceLength ≤ (b - 1 + 1) * r.pieceLength by rw [hprev] }

lemma Covers.before_first : r.before first = none := by
  rw [ReadRange.before, partialReadBounds, h.start, if_pos (by omega), map_none]

lemma Covers.surplus_byte (hfirst : first ≤ p) (hp : p < last)
    (hfit : ∀ file, pieces (p : ℤ) = some file → data.length + file.length < 2 ^ 64)
    (hexact : ∀ q : ℕ, first ≤ q → q < p → (pieces q).map List.length = some r.pieceLength)
    (hlong : (pieces p).map List.length ≠ some r.pieceLength)
    (hok : (r.readFromDisk pieces).2 = .ok bytes) :
    ∃ file, pieces (p : ℤ) = some file ∧ r.pieceLength < file.length ∧
      (p + 1) * r.pieceLength - r.absoluteOffset < bytes.length ∧
      bytes[(p + 1) * r.pieceLength - r.absoluteOffset]? = file[r.pieceLength]? := by
  obtain ⟨hnone, hbytes, -⟩ := readFromDisk_eq_ok_iff.mp hok
  obtain ⟨t, ht, hloop⟩ := h.reached hfirst hp.le hexact
  rw [hloop] at hnone hbytes
  obtain ⟨hstep, hstart, hlast, hend⟩ := h.inside hfirst hp
  have hexpect := h.expected_of_lt hp
  -- the bounds of the chunk of a file that is accepted
  have hchunk : ∀ file, pieces (p : ℤ) = some file →
      expectedPieceSize p r.pieceLength r.numPieces r.totalSize ≤ file.length →
      pieceChunkBounds file p r.pieceLength r.absoluteOffset r.endOffset =
        some (max r.absoluteOffset (p * r.pieceLength) - p * r.pieceLength,
          min r.endOffset (p * r.pieceLength + file.length) - p * r.pieceLength) := by
    intro file hfile hlen
    have := hfit file hfile
    exact h.chunk_of_lt hfirst hp (hexpect ▸ hlen) (by omega)
  rcases readLoop_cons_cases r pieces p (piecesFrom ((p : ℤ) + 1) (last - p)) t with
    ⟨hskip, -⟩ | ⟨u, e, -, heq⟩ | ⟨file, a, b, hfile, hlen, hbounds, heq⟩
  · rcases hskip with hapart | ⟨file, hfile, hlen, hbounds⟩
    · cases hapart.symm.trans (h.overlaps_of_lt hfirst hp)
    · cases hbounds.symm.trans (hchunk file hfile hlen)
  · rw [heq] at hnone
    cases hnone
  · obtain ⟨rfl, rfl⟩ := Prod.mk.inj (Option.some.inj (hbounds.symm.trans (hchunk file hfile hlen)))
    have hsurplus : r.pieceLength < file.length := by
      rw [hfile] at hlong
      have hne : file.length ≠ r.pieceLength := fun heq => hlong (congrArg some heq)
      omega
    set e := min r.endOffset (p * r.pieceLength + file.length) with he
    set chunk := slice file (max r.absoluteOffset (p * r.pieceLength) - p * r.pieceLength)
      (e - p * r.pieceLength) with hdef
    -- whether or not the loop goes on, the chunk stays where it is
    have hprefix : t.result ++ chunk <+: bytes := by
      rw [← hbytes, heq]
      split
      · exact prefix_refl _
      · exact prefix_readLoop r pieces _ ⟨_, _⟩
    obtain ⟨rest, hrest⟩ := hprefix
    have hlength := ht.length
    have hreach : (p + 1) * r.pieceLength - r.absoluteOffset < (t.result ++ chunk).length := by
      rw [length_append, hdef, length_slice, hlength]
      omega
    refine ⟨file, hfile, hsurplus, ?_, ?_⟩
    · rw [← hrest, length_append]
      omega
    · rw [← hrest, getElem?_append_left hreach, getElem?_append_right (by omega), hdef,
        slice, getElem?_drop, getElem?_take_of_lt (by omega)]
      congr 1
      omega

end Loop

/-- Files of zeros as long as those of `pieces`, with a one behind the end of piece `p`. -/
def markedFiles (pieces : ℤ → Option (List UInt8)) (p : ℤ) (pieceLength : ℕ) :
    ℤ → Option (List UInt8) := fun q =>
  (pieces q).map fun file =>
    if q = p then (List.replicate file.length 0).set pieceLength 1
    else List.replicate file.length 0

lemma length_markedFiles (pieces : ℤ → Option (List UInt8)) (p : ℤ) (pieceLength : ℕ) (q : ℤ) :
    (markedFiles pieces p pieceLength q).map List.length = (pieces q).map List.length := by
  rw [markedFiles, Option.map_map]
  congr 1
  funext file
  rw [Function.comp_apply]
  split <;> simp

lemma surplus_markedFiles {p : ℤ} {pieceLength : ℕ}
    (hfile : markedFiles pieces p pieceLength p = some file) (hlong : pieceLength < file.length) :
    file[pieceLength]? = some 1 := by
  obtain ⟨original, -, rfl⟩ := Option.map_eq_some_iff.mp hfile
  rw [if_pos rfl] at hlong ⊢
  rw [getElem?_set_self (by simpa using hlong)]

lemma first_markedFiles (pieces : ℤ → Option (List UInt8)) {p q : ℤ} (pieceLength : ℕ)
    (hne : q ≠ p) : (markedFiles pieces p pieceLength q).bind (fun file => file[0]?) ≠ some 1 := by
  rw [markedFiles]
  cases pieces q with
  | none => simp
  | some file =>
    rw [map_some, bind_some, if_neg hne]
    intro heq
    have hmem := mem_of_getElem? heq
    cases eq_of_mem_replicate hmem

lemma Covers.placed_iff_exact {first last : ℕ} (h : r.Covers data first last) {bytes : List UInt8}
    (hfit : ∀ p file, pieces p = some file → data.length + file.length < 2 ^ 64)
    (hok : (r.readFromDisk pieces).2 = .ok bytes) : (∀ pieces' : ℤ → Option (List UInt8),
        (∀ p, (pieces' p).map List.length = (pieces p).map List.length) →
        ∀ bytes', (r.readFromDisk pieces').2 = .ok bytes' → r.Placed pieces' bytes') ↔
      ∀ p : ℕ, first ≤ p → p < last → (pieces p).map List.length = some r.pieceLength := by
  have hfit' : ∀ pieces' : ℤ → Option (List UInt8),
      (∀ p, (pieces' p).map List.length = (pieces p).map List.length) →
      ∀ p file, pieces' p = some file → data.length + file.length < 2 ^ 64 := by
    intro pieces' hsame p file hfile
    obtain ⟨file', hfile', hlen⟩ := Option.map_eq_some_iff.mp
      ((hsame p).symm.trans (congrArg (Option.map List.length) hfile))
    rw [← hlen]
    exact hfit p file' hfile'
  constructor
  · intro hplaced
    by_contra hnot
    push Not at hnot
    -- the first piece whose file is not exact, with a byte of its own behind the piece
    obtain ⟨hfirst, hp, hlong⟩ := Nat.find_spec hnot
    have hmin := fun q hq => Nat.find_min hnot (m := q) hq
    set p := Nat.find hnot with hpdef
    set marked := markedFiles pieces p r.pieceLength with hmarked
    have hsame := length_markedFiles pieces p r.pieceLength
    obtain ⟨hnone, hbytes, hsize⟩ := readFromDisk_eq_ok_iff.mp hok
    obtain ⟨hstop, hlen⟩ := readLoop_congr_length (r := r) hsame r.pieceRange ⟨[], []⟩ ⟨[], []⟩ rfl
    have hok' : (r.readFromDisk marked).2 =
        .ok (r.readLoop marked r.pieceRange ⟨[], []⟩).1.result := by
      refine readFromDisk_eq_ok_iff.mpr ⟨hstop.trans hnone, rfl, ?_⟩
      rw [hlen, hbytes]
      exact hsize
    obtain ⟨file, hfile, hsurplus, hinside, hbyte⟩ := h.surplus_byte hfirst hp
      (hfit' marked hsame p) (fun q hq hlt => by
        have := hmin q hlt
        push Not at this
        rw [hsame]
        exact this hq (by omega)) (by rw [hsame]; exact hlong) hok'
    have hsource := (hplaced marked hsame _ hok').source _ hinside
    have hlow : (first + 1) * r.pieceLength ≤ (p + 1) * r.pieceLength :=
      Nat.mul_le_mul_right _ (by omega)
    have hstart := h.lt_first
    have hpos := h.length_pos
    rw [hbyte, add_sub_of_le (by omega), fileByte_of_mem (p := p + 1) le_rfl
      (Nat.mul_lt_mul_of_pos_right (lt_succ_self _) hpos), Nat.sub_self,
      surplus_markedFiles hfile hsurplus] at hsource
    exact first_markedFiles pieces r.pieceLength (by omega) hsource.symm
  · intro hexact pieces' hsame bytes' hok'
    have hlast := h.last_lt
    have hend := h.end_le
    refine h.placed_of_exact (fun file hfile => ?_) (fun p hfirst hp => ?_) hok'
    · have := hfit' pieces' hsame last file hfile
      omega
    · rw [hsame]
      exact hexact p hfirst hp

end ReadRange

/-! ### Prepared reads -/

namespace TorrentLayout

variable (L : TorrentLayout) {i offset size : ℕ}

lemma covers_range (hi : i < L.files.length) (h : offset < L.fileSize i) (hsize : 1 ≤ size) :
    (L.range i offset size).Covers L.data ((L.fileOffset i + offset) / L.pieceLength)
      ((L.fileOffset i + min (offset + size) (L.fileSize i) - 1) / L.pieceLength) := by
  have hpos := L.pieceLength_pos
  set e := L.fileOffset i + min (offset + size) (L.fileSize i) with he
  have hfloor : (e - 1) / L.pieceLength * L.pieceLength ≤ e - 1 := div_mul_le_self _ _
  have hceil : e - 1 < ((e - 1) / L.pieceLength + 1) * L.pieceLength := by
    rw [succ_mul]
    exact lt_div_mul_add hpos
  refine ⟨L.fits_range hi h hsize, rfl, rfl, div_mul_le_self _ _, ?_, ?_, ?_⟩
  · show L.fileOffset i + offset < ((L.fileOffset i + offset) / L.pieceLength + 1) * L.pieceLength
    rw [succ_mul]
    exact lt_div_mul_add hpos
  · show (e - 1) / L.pieceLength * L.pieceLength < e
    omega
  · show e ≤ ((e - 1) / L.pieceLength + 1) * L.pieceLength
    omega

lemma prepareFileRead_zero : prepareFileRead L.files L.pieceLength i offset 0 =
      prepareFileRead L.files L.pieceLength i offset 1 := by
  have hclamp : ∀ rest : ℕ, max (min 0 rest % 2 ^ 32) 1 = max (min 1 rest % 2 ^ 32) 1 := by
    intro rest
    have hle : min 1 rest ≤ 1 := min_le_left _ _
    rw [Nat.zero_min, mod_eq_of_lt (by omega : min 1 rest < 2 ^ 32), max_eq_right hle]
    rfl
  unfold prepareFileRead prepareRange
  simp only [hclamp]

lemma exists_eq_range (hi : i < L.files.length) (hoffset : L.fileOffset i + offset < 2 ^ 64)
    (hsize : size < 2 ^ 32) {r : ReadRange}
    (h : prepareFileRead L.files L.pieceLength i offset size = .ok (some r)) :
    ∃ n, 1 ≤ n ∧ n < 2 ^ 32 ∧ offset < L.fileSize i ∧ r = L.range i offset n := by
  rcases le_or_gt (L.fileSize i) offset with hpast | hinside
  · rw [L.prepareFileRead_eq_none hi hoffset hpast] at h
    cases h
  · rcases Nat.eq_zero_or_pos size with rfl | hpos
    · rw [L.prepareFileRead_zero,
        L.prepareFileRead_eq_some hi hinside le_rfl (by omega)] at h
      exact ⟨1, le_rfl, by omega, hinside, (Option.some.inj (Except.ok.inj h)).symm⟩
    · rw [L.prepareFileRead_eq_some hi hinside hpos hsize] at h
      exact ⟨size, hpos, hsize, hinside, (Option.some.inj (Except.ok.inj h)).symm⟩

/-- A prepared read that succeeds returns the requested length with every byte from its place,
whatever the files hold, if and only if no file is longer than its piece, that of the last piece
of the range apart. -/
theorem placed_iff_exact_files {r : ReadRange} (hi : i < L.files.length)
    (hoffset : L.fileOffset i + offset < 2 ^ 64) (hsize : size < 2 ^ 32)
    (hprepared : prepareFileRead L.files L.pieceLength i offset size = .ok (some r))
    {pieces : ℤ → Option (List UInt8)} {bytes : List UInt8}
    (hfit : ∀ p file, pieces p = some file → L.files.sum + file.length < 2 ^ 64)
    (hok : (r.readFromDisk pieces).2 = .ok bytes) : (∀ pieces' : ℤ → Option (List UInt8),
        (∀ p, (pieces' p).map List.length = (pieces p).map List.length) →
        ∀ bytes', (r.readFromDisk pieces').2 = .ok bytes' → r.Placed pieces' bytes') ↔
      ∀ p, r.startPiece ≤ p → p < r.endPiece → (pieces p).map List.length = some r.pieceLength := by
  obtain ⟨n, hn, -, hinside, rfl⟩ := L.exists_eq_range hi hoffset hsize hprepared
  have hcovers := L.covers_range hi hinside hn
  rw [hcovers.placed_iff_exact (L.data_length ▸ hfit) hok, hcovers.start, hcovers.stop]
  constructor
  · intro hexact p hfirst hlast
    obtain ⟨q, rfl⟩ := Int.eq_ofNat_of_zero_le ((Int.natCast_nonneg _).trans hfirst)
    exact hexact q (by omega) (by omega)
  · intro hexact p hfirst hlast
    exact hexact p (by omega) (by omega)

def longLastFile : ℤ → Option (List UInt8) := fun p =>
  if p = 0 then some [1, 2, 3, 4] else if p = 1 then some [5, 6, 7, 8, 9] else none

theorem placed_twoFiles : ∃ r, prepareFileRead [3, 5] 4 1 0 5 = .ok (some r) ∧
      (r.readFromDisk longLastFile).2 = .ok [4, 5, 6, 7, 8] ∧
      r.Placed longLastFile [4, 5, 6, 7, 8] := by
  have hok : ((twoFiles.range 1 0 5).readFromDisk longLastFile).2 = .ok [4, 5, 6, 7, 8] := by
    decide
  have hprepared : prepareFileRead twoFiles.files twoFiles.pieceLength 1 0 5 =
      .ok (some (twoFiles.range 1 0 5)) := by decide
  refine ⟨twoFiles.range 1 0 5, hprepared, hok, ?_⟩
  refine (twoFiles.placed_iff_exact_files (by decide) (by decide) (by decide) hprepared ?_
    hok).mpr ?_ longLastFile (fun _ => rfl) _ hok
  · intro p file hfile
    have hlen : file.length ≤ 5 := by
      unfold longLastFile at hfile
      split at hfile
      · cases hfile
        decide
      · split at hfile
        · cases hfile
          decide
        · cases hfile
    show 8 + file.length < 2 ^ 64
    omega
  · intro p hfirst hlast
    obtain rfl : p = 0 := by
      have hlow : 0 ≤ p := hfirst
      have hhigh : p < 1 := hlast
      omega
    rfl

/-- A byte too many in the file of the first piece makes the result longer than requested, and
stands where the second piece begins. -/
theorem long_file_shifts_read : ∃ r, prepareFileRead [3, 5] 4 1 0 5 = .ok (some r) ∧ r.size = 5 ∧
      (r.readFromDisk fun p => if p = 0 then some [1, 2, 3, 4, 9] else some [5, 6, 7, 8]).2 =
        .ok [4, 9, 5, 6, 7, 8] :=
  ⟨twoFiles.range 1 0 5, by decide, by decide, by decide⟩

end TorrentLayout

end TorrentFs.Download
