import TorrentFs.Lib.Bytes
import TorrentFs.Lib.Word

/-!
# Serving a byte range from piece files

A read of a file is turned into a range of the torrent's bytes, the range into the pieces that
overlap it, and each piece file contributes the bytes of it that lie in the range. When a piece
does not arrive in time the read is cut back to the pieces before it.

The piece store is the function `pieces`: the content `read_piece` returns for a piece index, or
`none` when it fails.
-/

namespace TorrentFs.Download

open Word Bytes Nat

/-- The errors of a read that concern its range and its pieces. -/
inductive ReadError
  | invalidTorrent (numPieces : ℤ) (pieceLength : ℕ)
  | startPieceExceeds (startPiece numPieces : ℤ)
  | pieceMissing (piece : ℤ)
  | pieceEmpty (piece : ℤ)
  | pieceShort (piece : ℤ) (length expected : ℕ)
  | shortRead (expected got : ℕ)
deriving DecidableEq

/-- The numbers of a `PreparedRead`. -/
structure ReadRange where
  size : ℕ
  pieceLength : ℕ
  numPieces : ℤ
  totalSize : ℕ
  absoluteOffset : ℕ
  endOffset : ℕ
  startPiece : ℤ
  endPiece : ℤ
deriving DecidableEq

def prepareRange (pieceLength : ℕ) (numPieces : ℤ) (totalSize fileStartOffset fileSize : ℕ)
    (offset size : ℕ) : Except ReadError (Option ReadRange) :=
  if numPieces ≤ 0 ∨ pieceLength = 0 then .error (.invalidTorrent numPieces pieceLength)
  else
    let absoluteOffset := addU64 fileStartOffset offset
    let fileEnd := addU64 fileStartOffset fileSize
    if fileEnd ≤ absoluteOffset then .ok none
    else
      let size := max (min size (fileEnd - absoluteOffset) % 2 ^ 32) 1
      let startPiece := toI32 (absoluteOffset / pieceLength)
      let endOffset := addU64 absoluteOffset size
      -- at least one and at most `file_end`, so the subtraction below does not underflow
      let endPiece := min (toI32 ((endOffset - 1) / pieceLength)) (numPieces - 1)
      if numPieces ≤ startPiece then .error (.startPieceExceeds startPiece numPieces)
      else if endPiece < startPiece then .ok none
      else .ok (some ⟨size, pieceLength, numPieces, totalSize, absoluteOffset, endOffset,
        startPiece, endPiece⟩)

def expectedPieceSize (piece : ℤ) (pieceLength : ℕ) (numPieces : ℤ) (totalSize : ℕ) : ℕ :=
  if piece = numPieces - 1 then
    let remainder := totalSize - mulU64 (toU64 (numPieces - 1)) pieceLength
    if 0 < remainder then remainder else pieceLength
  else pieceLength

def pieceChunkBounds (pieceData : List UInt8) (piece : ℤ) (pieceLength absoluteOffset : ℕ)
    (endOffset : ℕ) : Option (ℕ × ℕ) :=
  let pieceStart := mulU64 (toU64 piece) pieceLength
  let pieceEnd := addU64 pieceStart pieceData.length
  let readStart := max absoluteOffset pieceStart
  let readEnd := min endOffset pieceEnd
  if readStart < readEnd then some (readStart - pieceStart, readEnd - pieceStart) else none

def partialReadBounds (startPiece lastComplete : ℤ) (pieceLength absoluteOffset : ℕ)
    (endOffset : ℕ) : Option (ℕ × ℕ) :=
  if lastComplete < startPiece then none
  else
    let partialEnd := min endOffset (mulU64 (addU64 (toU64 lastComplete) 1) pieceLength)
    if partialEnd ≤ absoluteOffset then none
    else some (partialEnd, (partialEnd - absoluteOffset) % 2 ^ 32)

/-- What the loop of `read_from_disk` has collected. `bytes_read` is the length of `result`. -/
structure ReadProgress where
  result : List UInt8
  -- the pieces whose file could be read, in order
  accessed : List ℤ

namespace ReadRange

def overlaps (r : ReadRange) (piece : ℤ) : Bool :=
  let pieceStart := mulU64 (toU64 piece) r.pieceLength
  decide (r.absoluteOffset < addU64 pieceStart r.pieceLength) && decide (pieceStart < r.endOffset)

def readLoop (r : ReadRange) (pieces : ℤ → Option (List UInt8)) :
    List ℤ → ReadProgress → ReadProgress × Option ReadError
  | [], s => (s, none)
  | piece :: rest, s =>
    match pieces piece with
    | none =>
      if r.overlaps piece then (s, some (.pieceMissing piece)) else readLoop r pieces rest s
    | some pieceData =>
      let s := { s with accessed := s.accessed ++ [piece] }
      let expected := expectedPieceSize piece r.pieceLength r.numPieces r.totalSize
      if pieceData = [] then
        if r.overlaps piece then (s, some (.pieceEmpty piece)) else readLoop r pieces rest s
      else if pieceData.length < expected then
        if r.overlaps piece then (s, some (.pieceShort piece pieceData.length expected))
        else readLoop r pieces rest s
      else
        match pieceChunkBounds pieceData piece r.pieceLength r.absoluteOffset r.endOffset with
        | none => readLoop r pieces rest s
        | some (localStart, localEnd) =>
          let s := { s with result := s.result ++ slice pieceData localStart localEnd }
          if r.size ≤ s.result.length then (s, none) else readLoop r pieces rest s

def piecesFrom (piece : ℤ) : ℕ → List ℤ
  | 0 => []
  | n + 1 => piece :: piecesFrom (piece + 1) n

def pieceRange (r : ReadRange) : List ℤ :=
  piecesFrom r.startPiece (r.endPiece + 1 - r.startPiece).toNat

/-- `read_from_disk` up to the registration of the pieces: the pieces it read and its result. -/
def readFromDisk (r : ReadRange) (pieces : ℤ → Option (List UInt8)) :
    List ℤ × Except ReadError (List UInt8) :=
  let (s, stopped) := r.readLoop pieces r.pieceRange ⟨[], []⟩
  match stopped with
  | some e => (s.accessed, .error e)
  | none =>
    if 0 < r.size ∧ s.result.length < r.size then
      (s.accessed, .error (.shortRead r.size s.result.length))
    else (s.accessed, .ok s.result)

/-- The range cut back to the pieces before `piece`, as `read_timed_out` does; `none` when no
byte of it lies there. -/
def before (r : ReadRange) (piece : ℤ) : Option ReadRange :=
  (partialReadBounds r.startPiece (piece - 1) r.pieceLength r.absoluteOffset r.endOffset).map
    fun b => { r with endPiece := piece - 1, endOffset := b.1, size := b.2 }

/-! ### The chunks join -/

section Loop

variable {r : ReadRange} {pieces : ℤ → Option (List UInt8)} {data : List UInt8}

def pieceBytes (data : List UInt8) (pieceLength p : ℕ) : List UInt8 :=
  slice data (p * pieceLength) ((p + 1) * pieceLength)

/-- A range of the torrent `data`, in numbers that fit the machine words of the code. -/
structure Fits (r : ReadRange) (data : List UInt8) : Prop where
  length_pos : 0 < r.pieceLength
  total : r.totalSize = data.length
  start_lt : r.absoluteOffset < r.endOffset
  end_le : r.endOffset ≤ data.length
  size : r.size = r.endOffset - r.absoluteOffset
  pieces : r.numPieces = ((data.length + r.pieceLength - 1) / r.pieceLength : ℕ)
  data_lt : data.length < 2 ^ 64

lemma lt_pieces_iff (data : List UInt8) (hpos : 0 < r.pieceLength) (p : ℕ) :
    p < (data.length + r.pieceLength - 1) / r.pieceLength ↔ p * r.pieceLength < data.length := by
  rw [lt_iff_add_one_le, Nat.le_div_iff_mul_le hpos, Nat.add_mul, Nat.one_mul]
  omega

lemma expectedPieceSize_eq (h : Fits r data) {p : ℕ} (hp : (p : ℤ) < r.numPieces) :
    expectedPieceSize p r.pieceLength r.numPieces r.totalSize =
      (pieceBytes data r.pieceLength p).length := by
  have hlt : p * r.pieceLength < data.length := by
    rw [← lt_pieces_iff data h.length_pos]
    have := h.pieces
    omega
  have hdata := h.data_lt
  have hnum := h.pieces
  set n := (data.length + r.pieceLength - 1) / r.pieceLength with hn
  -- the last piece ends with the torrent, every other one is followed by a byte
  have hnext : (p + 1 = n) ↔ data.length ≤ (p + 1) * r.pieceLength := by
    have hafter := lt_pieces_iff data h.length_pos (p + 1)
    omega
  rw [pieceBytes, length_slice, expectedPieceSize, h.total]
  have hstep : (p + 1) * r.pieceLength = p * r.pieceLength + r.pieceLength := succ_mul _ _
  have hple := Nat.le_mul_of_pos_right p h.length_pos
  by_cases hlast : (p : ℤ) = r.numPieces - 1
  · have hpred : toU64 (r.numPieces - 1) = p := by
      rw [← hlast]
      exact toU64_natCast (by omega)
    have hle := hnext.mp (by omega)
    rw [if_pos hlast, hpred, mulU64_of_lt (by omega)]
    rw [if_pos (by omega)]
    omega
  · have hle : ¬ data.length ≤ (p + 1) * r.pieceLength := fun hle => hlast (by
      omega)
    rw [if_neg hlast]
    omega

lemma pieceChunkBounds_eq (h : Fits r data) {p : ℕ} (hp : p * r.pieceLength < data.length) :
    pieceChunkBounds (pieceBytes data r.pieceLength p) p r.pieceLength r.absoluteOffset
        r.endOffset =
      if max r.absoluteOffset (p * r.pieceLength) < min r.endOffset ((p + 1) * r.pieceLength) then
        some (max r.absoluteOffset (p * r.pieceLength) - p * r.pieceLength,
          min r.endOffset ((p + 1) * r.pieceLength) - p * r.pieceLength) else none := by
  have hdata := h.data_lt
  have hend := h.end_le
  have hstep : (p + 1) * r.pieceLength = p * r.pieceLength + r.pieceLength := succ_mul _ _
  have hple := Nat.le_mul_of_pos_right p h.length_pos
  have hcast : toU64 (p : ℤ) = p := toU64_natCast (by omega)
  have hpieceEnd : addU64 (p * r.pieceLength) (pieceBytes data r.pieceLength p).length =
      min ((p + 1) * r.pieceLength) data.length := by
    rw [pieceBytes, length_slice, addU64_of_lt (by omega)]
    omega
  rw [pieceChunkBounds, hcast, mulU64_of_lt (by omega), hpieceEnd, ← min_assoc,
    min_eq_left (b := data.length) (by omega)]

lemma readLoop_eq (h : Fits r data) (n : ℕ) {p : ℕ} {s : ReadProgress}
    (hp : ∀ k < n, (p + k) * r.pieceLength < data.length)
    (hpieces : ∀ k < n, pieces ((p + k : ℕ) : ℤ) = some (pieceBytes data r.pieceLength (p + k)))
    (hs : s.result = slice data r.absoluteOffset (min r.endOffset (p * r.pieceLength))) :
    ∃ t, r.readLoop pieces (piecesFrom p n) s = (t, none) ∧
      t.result = slice data r.absoluteOffset (min r.endOffset ((p + n) * r.pieceLength)) := by
  -- induction on the number of pieces; the invariant is `hs`
  induction n generalizing p s with
  | zero => exact ⟨s, rfl, by simpa using hs⟩
  | succ n ih =>
    have hpos := h.length_pos
    have hcur : p * r.pieceLength < data.length := hp 0 (by omega)
    have hbytes : pieces (p : ℤ) = some (pieceBytes data r.pieceLength p) :=
      hpieces 0 (by omega)
    have hstep : (p + 1) * r.pieceLength = p * r.pieceLength + r.pieceLength :=
      succ_mul _ _
    have hnum : (p : ℤ) < r.numPieces := by
      rw [h.pieces]
      exact_mod_cast (lt_pieces_iff data hpos p).mpr hcur
    have hlen : (pieceBytes data r.pieceLength p).length =
        min ((p + 1) * r.pieceLength) data.length - p * r.pieceLength := length_slice _ _ _
    have hnonempty : pieceBytes data r.pieceLength p ≠ [] := by
      intro hnil
      rw [hnil, List.length_nil] at hlen
      omega
    have hnext : ∀ k < n, (p + 1 + k) * r.pieceLength < data.length := fun k hk => by
      have := hp (k + 1) (by omega)
      rwa [show p + 1 + k = p + (k + 1) by omega]
    have hnextPieces : ∀ k < n, pieces ((p + 1 + k : ℕ) : ℤ) =
        some (pieceBytes data r.pieceLength (p + 1 + k)) := fun k hk => by
      have := hpieces (k + 1) (by omega)
      rwa [show p + 1 + k = p + (k + 1) by omega]
    have hcount : p + 1 + n = p + (n + 1) := by omega
    rw [piecesFrom, readLoop, hbytes]
    dsimp only
    rw [if_neg hnonempty, expectedPieceSize_eq h hnum, if_neg (lt_irrefl _),
      pieceChunkBounds_eq h hcur]
    by_cases hchunk : max r.absoluteOffset (p * r.pieceLength) <
        min r.endOffset ((p + 1) * r.pieceLength)
    · rw [if_pos hchunk]
      dsimp only
      -- the chunk continues what was collected up to the start of the piece
      have hjoin : s.result ++ slice (pieceBytes data r.pieceLength p)
            (max r.absoluteOffset (p * r.pieceLength) - p * r.pieceLength)
            (min r.endOffset ((p + 1) * r.pieceLength) - p * r.pieceLength) =
          slice data r.absoluteOffset (min r.endOffset ((p + 1) * r.pieceLength)) := by
        rw [hs, pieceBytes, slice_slice _ (by omega),
          min_eq_right (b := p * r.pieceLength) (by omega), add_sub_of_le (le_max_right _ _),
          add_sub_of_le (by omega)]
        rcases le_total (p * r.pieceLength) r.absoluteOffset with hle | hle
        · rw [slice_eq_nil hle, max_eq_left hle, List.nil_append]
        · rw [max_eq_right hle, slice_append_slice _ hle (by omega)]
      rw [hjoin]
      split
      · next hdone =>
        -- the range is served, so no later piece contributes to it
        have hmono : (p + 1) * r.pieceLength ≤ (p + (n + 1)) * r.pieceLength :=
          Nat.mul_le_mul_right _ (by omega)
        have hsize := h.size
        rw [length_slice] at hdone
        refine ⟨_, rfl, ?_⟩
        rw [min_eq_left (a := r.endOffset) (by omega), min_eq_left (by omega)]
      · obtain ⟨t, hloop, ht⟩ := ih (p := p + 1) (s := ⟨_, _⟩) hnext hnextPieces rfl
        exact ⟨t, hloop, by rw [ht, hcount]⟩
    · rw [if_neg hchunk]
      obtain ⟨t, hloop, ht⟩ := ih (p := p + 1)
        (s := { s with accessed := s.accessed ++ [(p : ℤ)] }) hnext hnextPieces (by
          rw [hs]
          -- the piece lies before the range or after it
          rcases le_or_gt r.endOffset (p * r.pieceLength) with hle | hlt
          · rw [min_eq_left hle, min_eq_left (by omega)]
          · rw [slice_eq_nil (by omega), slice_eq_nil (by omega)])
      exact ⟨t, hloop, by rw [ht, hcount]⟩

lemma readFromDisk_eq (h : Fits r data) {s e : ℕ} (hs : r.startPiece = s) (he : r.endPiece = e)
    (hstart : s * r.pieceLength ≤ r.absoluteOffset) (hlast : e * r.pieceLength < r.endOffset)
    (hend : r.endOffset ≤ (e + 1) * r.pieceLength)
    (hpieces : ∀ p : ℕ, s ≤ p → p ≤ e → pieces p = some (pieceBytes data r.pieceLength p)) :
    (r.readFromDisk pieces).2 = .ok (slice data r.absoluteOffset r.endOffset) := by
  have hse : s ≤ e := by
    have hlt : s * r.pieceLength < (e + 1) * r.pieceLength := by
      have := h.start_lt
      omega
    exact Nat.lt_add_one_iff.mp (Nat.lt_of_mul_lt_mul_right hlt)
  have hcount : (r.endPiece + 1 - r.startPiece).toNat = e + 1 - s := by
    rw [hs, he]
    omega
  have hinside : ∀ k < e + 1 - s, (s + k) * r.pieceLength < data.length := by
    intro k hk
    have hmono : (s + k) * r.pieceLength ≤ e * r.pieceLength := Nat.mul_le_mul_right _ (by omega)
    have := h.end_le
    omega
  obtain ⟨t, hloop, ht⟩ := readLoop_eq h (e + 1 - s) (p := s) (s := ⟨[], []⟩) hinside
    (fun k hk => hpieces (s + k) (by omega) (by omega))
    (slice_eq_nil (le_trans (min_le_right _ _) hstart)).symm
  rw [show s + (e + 1 - s) = e + 1 by omega, min_eq_left hend] at ht
  have hlen : t.result.length = r.size := by
    rw [ht, length_slice, min_eq_left h.end_le, h.size]
  rw [readFromDisk, pieceRange, hs, ← hs, hcount, hs, hloop]
  dsimp only
  rw [hlen, if_neg (by omega), ht]

end Loop

end ReadRange

/-! ### Reads of a torrent's files -/

/-- The number of pieces of a torrent: the total size over the piece length, rounded up. -/
def pieceCount (files : List ℕ) (pieceLength : ℕ) : ℕ :=
  (files.sum + pieceLength - 1) / pieceLength

/-- `prepare_read` on file `i` of a torrent with the given file sizes. A file that is not in the
list has the size `u64::MAX`. -/
def prepareFileRead (files : List ℕ) (pieceLength i offset size : ℕ) :
    Except ReadError (Option ReadRange) :=
  prepareRange pieceLength (toI32 (pieceCount files pieceLength)) files.sum (files.take i).sum
    (files.getD i u64Max) offset size

def fileRead (pieces : ℤ → Option (List UInt8)) (files : List ℕ) (pieceLength i offset : ℕ)
    (size : ℕ) : Except ReadError (List UInt8) :=
  match prepareFileRead files pieceLength i offset size with
  | .error e => .error e
  | .ok none => .ok []
  | .ok (some r) => (r.readFromDisk pieces).2

/-- A torrent with at least one piece whose size and piece count fit the types of the code. -/
structure TorrentLayout where
  files : List ℕ
  pieceLength : ℕ
  data : List UInt8
  data_length : data.length = files.sum
  pieceLength_pos : 0 < pieceLength
  total_pos : 0 < files.sum
  total_lt : files.sum < 2 ^ 64
  pieces_lt : pieceCount files pieceLength < 2 ^ 31

namespace TorrentLayout

def fileOffset (L : TorrentLayout) (i : ℕ) : ℕ := (L.files.take i).sum

def fileSize (L : TorrentLayout) (i : ℕ) : ℕ := L.files.getD i 0

def fileBytes (L : TorrentLayout) (i : ℕ) : List UInt8 :=
  slice L.data (L.fileOffset i) (L.fileOffset i + L.fileSize i)

/-- The store holds the pieces from `first` up to `last`, each with exactly its bytes. -/
def Holds (L : TorrentLayout) (pieces : ℤ → Option (List UInt8)) (first last : ℤ) : Prop :=
  ∀ p : ℕ, first ≤ p → p ≤ last → pieces p =
    some (slice L.data (p * L.pieceLength) (p * L.pieceLength +
      expectedPieceSize p L.pieceLength (pieceCount L.files L.pieceLength) L.files.sum))

def range (L : TorrentLayout) (i offset size : ℕ) : ReadRange where
  size := min (offset + size) (L.fileSize i) - offset
  pieceLength := L.pieceLength
  numPieces := pieceCount L.files L.pieceLength
  totalSize := L.files.sum
  absoluteOffset := L.fileOffset i + offset
  endOffset := L.fileOffset i + min (offset + size) (L.fileSize i)
  startPiece := ((L.fileOffset i + offset) / L.pieceLength : ℕ)
  endPiece := ((L.fileOffset i + min (offset + size) (L.fileSize i) - 1) / L.pieceLength : ℕ)

section Reads

variable (L : TorrentLayout) {i offset size : ℕ}

lemma getD_fileSize (hi : i < L.files.length) (d : ℕ) : L.files.getD i d = L.fileSize i := by
  rw [fileSize, List.getD_eq_getElem?_getD, List.getD_eq_getElem?_getD,
    List.getElem?_eq_getElem hi, Option.getD_some, Option.getD_some]

lemma pieceCount_pos : 0 < pieceCount L.files L.pieceLength := by
  have hpos := L.pieceLength_pos
  have htotal := L.total_pos
  exact Nat.div_pos (by omega) hpos

lemma fileOffset_add_fileSize_le (hi : i < L.files.length) :
    L.fileOffset i + L.fileSize i ≤ L.files.sum := by
  have hsplit : L.files.sum = (L.files.take (i + 1)).sum + (L.files.drop (i + 1)).sum := by
    rw [← List.sum_append, List.take_append_drop]
  have hfile : L.files[i] = L.fileSize i := by
    rw [fileSize, List.getD_eq_getElem?_getD, List.getElem?_eq_getElem hi, Option.getD_some]
  rw [hsplit, ← List.take_append_getElem hi, List.sum_append, List.sum_singleton, hfile, fileOffset]
  omega

lemma div_lt_pieceCount {position : ℕ} (h : position < L.files.sum) :
    position / L.pieceLength < pieceCount L.files L.pieceLength := by
  have hpos := L.pieceLength_pos
  rw [pieceCount, Nat.div_lt_iff_lt_mul hpos]
  have hceil := lt_div_mul_add (a := L.files.sum + L.pieceLength - 1) hpos
  omega

lemma prepareFileRead_eq_none (hi : i < L.files.length)
    (hoffset : L.fileOffset i + offset < 2 ^ 64) (h : L.fileSize i ≤ offset) :
    prepareFileRead L.files L.pieceLength i offset size = .ok none := by
  have hcount := L.pieceCount_pos
  rw [prepareFileRead, prepareRange, toI32_of_lt L.pieces_lt, getD_fileSize L hi,
    if_neg (by have := L.pieceLength_pos; omega)]
  rw [show (L.files.take i).sum = L.fileOffset i from rfl, addU64_of_lt (by omega),
    addU64_of_lt (by omega), if_pos (by omega)]

lemma prepareFileRead_eq_some (hi : i < L.files.length) (h : offset < L.fileSize i)
    (hsize : 1 ≤ size) (hsize32 : size < 2 ^ 32) :
    prepareFileRead L.files L.pieceLength i offset size = .ok (some (L.range i offset size)) := by
  have hend := L.fileOffset_add_fileSize_le hi
  have htotal := L.total_lt
  have hcount := L.pieceCount_pos
  have hpieces := L.pieces_lt
  have hpos := L.pieceLength_pos
  set fo := L.fileOffset i with hfo
  set fs := L.fileSize i with hfs
  -- the clamped size, and the last position of the range
  have hclamp : max (min size (fo + fs - (fo + offset)) % 2 ^ 32) 1 =
      min (offset + size) fs - offset := by
    rw [mod_eq_of_lt (by omega)]
    omega
  set e := fo + min (offset + size) fs with he
  have hendOffset : fo + offset + (min (offset + size) fs - offset) = e := by
    omega
  have hlast : (e - 1) / L.pieceLength < pieceCount L.files L.pieceLength :=
    L.div_lt_pieceCount (by omega)
  have hmono : (fo + offset) / L.pieceLength ≤ (e - 1) / L.pieceLength :=
    Nat.div_le_div_right (by omega)
  rw [prepareFileRead, prepareRange, toI32_of_lt L.pieces_lt, getD_fileSize L hi,
    if_neg (by omega)]
  dsimp only
  rw [show (L.files.take i).sum = fo from rfl, ← hfs,
    addU64_of_lt (a := fo) (b := offset) (by omega),
    addU64_of_lt (a := fo) (b := fs) (by omega), if_neg (by omega), hclamp,
    addU64_of_lt (by omega), hendOffset, toI32_of_lt (by omega), toI32_of_lt (by omega),
    Int.min_eq_left (by omega), if_neg (by omega),
    if_neg (by omega)]
  rfl

lemma fits_range (hi : i < L.files.length) (h : offset < L.fileSize i) (hsize : 1 ≤ size) :
    (L.range i offset size).Fits L.data := by
  have hend := L.fileOffset_add_fileSize_le hi
  have hdata := L.data_length
  refine ⟨L.pieceLength_pos, hdata.symm, ?_, ?_, ?_, ?_, hdata ▸ L.total_lt⟩
  · show L.fileOffset i + offset < L.fileOffset i + min (offset + size) (L.fileSize i)
    omega
  · show L.fileOffset i + min (offset + size) (L.fileSize i) ≤ L.data.length
    omega
  · show min (offset + size) (L.fileSize i) - offset =
      L.fileOffset i + min (offset + size) (L.fileSize i) - (L.fileOffset i + offset)
    omega
  · rw [hdata]
    rfl

variable {pieces : ℤ → Option (List UInt8)}

lemma Holds.pieceBytes_eq {L : TorrentLayout}
    {first last : ℤ} (h : L.Holds pieces first last) {r : ReadRange} (hr : r.Fits L.data)
    (hlength : r.pieceLength = L.pieceLength) {p : ℕ} (hfirst : first ≤ p) (hlast : p ≤ last)
    (hp : p * r.pieceLength < L.data.length) :
    pieces p = some (ReadRange.pieceBytes L.data r.pieceLength p) := by
  have hnum : (p : ℤ) < r.numPieces := by
    rw [hr.pieces]
    exact_mod_cast (ReadRange.lt_pieces_iff L.data hr.length_pos p).mpr hp
  have hcount : r.numPieces = pieceCount L.files L.pieceLength := by
    rw [hr.pieces, L.data_length, hlength]
    rfl
  have hexpected := ReadRange.expectedPieceSize_eq hr hnum
  have hstep : (p + 1) * r.pieceLength = p * r.pieceLength + r.pieceLength := succ_mul _ _
  rw [hr.total, L.data_length, hcount, ReadRange.pieceBytes, length_slice, hlength] at hexpected
  rw [hlength] at hp hstep ⊢
  rw [h p hfirst hlast, hexpected, add_sub_of_le (by omega), slice_min_length]
  rfl

section

variable (hi : i < L.files.length) (h : offset < L.fileSize i) (hsize : 1 ≤ size)
include hi h hsize

lemma readFromDisk_range
    (hholds : L.Holds pieces (L.range i offset size).startPiece (L.range i offset size).endPiece) :
    ((L.range i offset size).readFromDisk pieces).2 =
      .ok (slice (L.fileBytes i) offset (min (offset + size) (L.fileSize i))) := by
  have hfits := L.fits_range hi h hsize
  have hpos := L.pieceLength_pos
  have hend : (L.range i offset size).endOffset ≤ L.data.length := hfits.end_le
  have hbytes : slice (L.fileBytes i) offset (min (offset + size) (L.fileSize i)) =
      slice L.data (L.range i offset size).absoluteOffset (L.range i offset size).endOffset := by
    rw [fileBytes, slice_slice _ (by omega)]
    rfl
  rw [hbytes]
  have hstart : (L.fileOffset i + offset) / L.pieceLength * L.pieceLength ≤
      L.fileOffset i + offset := div_mul_le_self _ _
  set e := L.fileOffset i + min (offset + size) (L.fileSize i) with he
  have hfloor : (e - 1) / L.pieceLength * L.pieceLength ≤ e - 1 := div_mul_le_self _ _
  have hceil : e - 1 < (e - 1) / L.pieceLength * L.pieceLength + L.pieceLength :=
    lt_div_mul_add hpos
  have hlast : (e - 1) / L.pieceLength * L.pieceLength < e := by omega
  refine ReadRange.readFromDisk_eq hfits rfl rfl hstart hlast ?_ fun p hfirst hle => ?_
  · show e ≤ ((e - 1) / L.pieceLength + 1) * L.pieceLength
    rw [succ_mul]
    omega
  · have hmul : p * L.pieceLength ≤ (e - 1) / L.pieceLength * L.pieceLength :=
      Nat.mul_le_mul_right _ hle
    have hp : p * L.pieceLength < L.data.length := by
      have hend' : e ≤ L.data.length := hend
      omega
    exact hholds.pieceBytes_eq hfits rfl (Int.ofNat_le.mpr hfirst) (Int.ofNat_le.mpr hle) hp

omit hi in
lemma pieceStart_between {b : ℕ} (hfirst : (L.range i offset size).startPiece < b)
    (hlast : b ≤ (L.range i offset size).endPiece) : L.fileOffset i + offset < b * L.pieceLength ∧
      b * L.pieceLength < L.fileOffset i + min (offset + size) (L.fileSize i) := by
  have hpos := L.pieceLength_pos
  set e := L.fileOffset i + min (offset + size) (L.fileSize i) with he
  have hfirst' : (L.fileOffset i + offset) / L.pieceLength < b := Int.ofNat_lt.mp hfirst
  have hlast' : b ≤ (e - 1) / L.pieceLength := Int.ofNat_le.mp hlast
  constructor
  · exact (Nat.div_lt_iff_lt_mul hpos).mp hfirst'
  · have hle := (Nat.le_div_iff_mul_le hpos).mp hlast'
    omega

lemma before_range (hsize32 : size < 2 ^ 32) {b : ℕ}
    (hfirst : (L.range i offset size).startPiece < b)
    (hlast : b ≤ (L.range i offset size).endPiece) :
    (L.range i offset size).before b = some { L.range i offset size with
      endPiece := ((b - 1 : ℕ) : ℤ)
      endOffset := b * L.pieceLength
      size := b * L.pieceLength - (L.fileOffset i + offset) } := by
  have hfits := L.fits_range hi h hsize
  have hpos := L.pieceLength_pos
  obtain ⟨habs, hend⟩ := L.pieceStart_between h hsize hfirst hlast
  have htotal : L.fileOffset i + min (offset + size) (L.fileSize i) < 2 ^ 64 :=
    lt_of_le_of_lt hfits.end_le hfits.data_lt
  have hb := Nat.le_mul_of_pos_right b hpos
  have hbpos : 0 < b := by
    have : (0 : ℤ) ≤ (L.range i offset size).startPiece := Int.natCast_nonneg _
    omega
  have hpred : ((b : ℤ) - 1) = ((b - 1 : ℕ) : ℤ) := by omega
  rw [ReadRange.before, partialReadBounds, hpred, if_neg (by omega), toU64_natCast (by omega),
    addU64_of_lt (by omega), Nat.sub_add_cancel hbpos]
  dsimp only
  rw [show (L.range i offset size).pieceLength = L.pieceLength from rfl,
    show (L.range i offset size).endOffset =
      L.fileOffset i + min (offset + size) (L.fileSize i) from rfl,
    show (L.range i offset size).absoluteOffset = L.fileOffset i + offset from rfl,
    mulU64_of_lt (by omega), min_eq_right hend.le, if_neg (by omega), Option.map_some,
    mod_eq_of_lt (by omega)]

lemma readFromDisk_before (hsize32 : size < 2 ^ 32) {b : ℕ}
    (hfirst : (L.range i offset size).startPiece < b) (hlast : b ≤ (L.range i offset size).endPiece)
    (hholds : L.Holds pieces (L.range i offset size).startPiece (b - 1)) {r : ReadRange}
    (hr : (L.range i offset size).before b = some r) : (r.readFromDisk pieces).2 =
      .ok (slice L.data (L.fileOffset i + offset) (b * L.pieceLength)) := by
  have hfits := L.fits_range hi h hsize
  have hpos := L.pieceLength_pos
  obtain ⟨habs, hend⟩ := L.pieceStart_between h hsize hfirst hlast
  have hbpos : 0 < b := Nat.pos_of_mul_pos_right (lt_of_le_of_lt (Nat.zero_le _) habs)
  rw [L.before_range hi h hsize hsize32 hfirst hlast, Option.some.injEq] at hr
  subst hr
  have hcut : ReadRange.Fits { L.range i offset size with
      endPiece := ((b - 1 : ℕ) : ℤ)
      endOffset := b * L.pieceLength
      size := b * L.pieceLength - (L.fileOffset i + offset) } L.data :=
    { hfits with
      start_lt := habs
      end_le := hend.le.trans hfits.end_le
      size := rfl }
  have hprev : (b - 1 + 1) * L.pieceLength = b * L.pieceLength := by
    rw [Nat.sub_add_cancel hbpos]
  have hstep : (b - 1 + 1) * L.pieceLength = (b - 1) * L.pieceLength + L.pieceLength :=
    succ_mul _ _
  refine ReadRange.readFromDisk_eq hcut rfl rfl (div_mul_le_self _ _) ?_ hprev.ge
    fun p hp hle => ?_
  · show (b - 1) * L.pieceLength < b * L.pieceLength
    omega
  · have hmul : p * L.pieceLength ≤ (b - 1) * L.pieceLength := Nat.mul_le_mul_right _ hle
    have hdata : b * L.pieceLength ≤ L.data.length := hcut.end_le
    exact hholds.pieceBytes_eq hcut rfl (Int.ofNat_le.mpr hp) (by omega)
      (show p * L.pieceLength < L.data.length by omega)

end

/-- Reads of the files of a torrent with at least one piece. A read at or past the end of its
file is empty. Any other read has a range; when the store holds the pieces of the range, it
returns the file's bytes from the offset up to the end of the request or of the file, and at
least one byte. Cut back to the pieces before a piece `b` of the range, it returns what of the
range lies in those pieces, which is nothing exactly when `b` is the first. -/
theorem fileRead_eq_fileBytes (i offset size : ℕ) (hi : i < L.files.length)
    (hoffset : L.fileOffset i + offset < 2 ^ 64) (hsize : 1 ≤ size) (hsize32 : size < 2 ^ 32) :
    (L.fileSize i ≤ offset → ∀ pieces,
      fileRead pieces L.files L.pieceLength i offset size = .ok []) ∧ (offset < L.fileSize i →
      ∃ r, prepareFileRead L.files L.pieceLength i offset size = .ok (some r) ∧
        (∀ pieces, L.Holds pieces r.startPiece r.endPiece →
          fileRead pieces L.files L.pieceLength i offset size =
              .ok (slice (L.fileBytes i) offset (min (offset + size) (L.fileSize i))) ∧
            slice (L.fileBytes i) offset (min (offset + size) (L.fileSize i)) ≠ []) ∧
        ∀ b : ℕ, r.startPiece ≤ b → b ≤ r.endPiece → (r.before b = none ↔ (b : ℤ) = r.startPiece) ∧
          ∀ r' pieces, r.before b = some r' → L.Holds pieces r.startPiece (b - 1) →
            (r'.readFromDisk pieces).2 = .ok (slice L.data (L.fileOffset i + offset)
              (min (L.fileOffset i + min (offset + size) (L.fileSize i))
                (b * L.pieceLength)))) := by
  constructor
  · intro h pieces
    rw [fileRead, L.prepareFileRead_eq_none hi hoffset h]
  intro h
  have hrange := L.prepareFileRead_eq_some hi h hsize hsize32
  refine ⟨_, hrange, fun pieces hholds => ⟨?_, ?_⟩, ?_⟩
  · rw [fileRead, hrange]
    exact L.readFromDisk_range hi h hsize hholds
  · intro hnil
    have hlen := congrArg List.length hnil
    have hend := L.fileOffset_add_fileSize_le hi
    have hdata := L.data_length
    rw [length_slice, fileBytes, length_slice, List.length_nil] at hlen
    omega
  · intro b hfirst hlast
    rcases hfirst.eq_or_lt with heq | hlt
    · -- nothing of the range lies before its first piece
      have hnone : (L.range i offset size).before b = none := by
        rw [ReadRange.before, partialReadBounds, if_pos (by omega), Option.map_none]
      refine ⟨⟨fun _ => heq.symm, fun _ => hnone⟩, fun r' pieces hr' => ?_⟩
      rw [hnone] at hr'
      cases hr'
    · refine ⟨⟨fun hnone => ?_, fun heq => absurd heq.symm hlt.ne⟩, fun r' pieces hr' hholds => ?_⟩
      · rw [L.before_range hi h hsize hsize32 hlt hlast] at hnone
        cases hnone
      · rw [min_eq_right (L.pieceStart_between h hsize hlt hlast).2.le]
        exact L.readFromDisk_before hi h hsize hsize32 hlt hlast hholds hr'

end Reads

def twoFiles : TorrentLayout where
  files := [3, 5]
  pieceLength := 4
  data := [1, 2, 3, 4, 5, 6, 7, 8]
  data_length := rfl
  pieceLength_pos := by decide
  total_pos := by decide
  total_lt := by decide
  pieces_lt := by decide

theorem fileRead_twoFiles :
    fileRead (fun p => if p = 1 then some [5, 6, 7, 8] else none) [3, 5] 4 1 1 3 =
      .ok [5, 6, 7] := by
  obtain ⟨r, hr, hread, -⟩ := (twoFiles.fileRead_eq_fileBytes 1 1 3 (by decide) (by decide)
    (by decide) (by decide)).2 (by decide)
  cases hr
  refine (hread _ fun p hfirst hlast => ?_).1
  obtain rfl : p = 1 := by
    have hlow : (1 : ℤ) ≤ p := hfirst
    have hhigh : (p : ℤ) ≤ 1 := hlast
    omega
  decide

end TorrentLayout

/-- A torrent whose only file is empty has no piece; a read of it is refused as invalid, although
the offset is at the end of the file. -/
theorem fileRead_of_empty_torrent :
    fileRead (fun _ => none) [0] 16384 0 0 1 = .error (.invalidTorrent 0 16384) := by
  decide

end TorrentFs.Download
