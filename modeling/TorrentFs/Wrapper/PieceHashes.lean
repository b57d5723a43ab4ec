import TorrentFs.Wrapper.DiskIo

/-!
# The block hashes of the disk backend

libtorrent asks the disk backend for the SHA-256 hashes of the blocks of a piece: `async_hash` fills
one entry per block, `async_hash2` reports the hash of the block at an offset. A block has 16 KiB,
the last one of a piece may be shorter.

The backend divides the piece file by the number of entries, and gives the rest to the last entry;
`async_hash2` does not look at the offset and hashes the whole file. The hash functions are
parameters: only their arguments are of interest here.
-/

namespace TorrentFs.Wrapper

open Text Cache List Nat

/-- The hash functions, and the hashes that the default constructors build. -/
structure Hashers (H₁ H₂ : Type) where
  sha1 : List UInt8 → H₁
  sha256 : List UInt8 → H₂
  zeroSha1 : H₁
  zeroSha256 : H₂

/-- What `async_hash` hands to its handler, and the entries it fills. -/
structure HashReport (H₁ H₂ : Type) where
  v2 : List H₂
  sha1 : H₁
  error : Option DiskError

def defaultBlockSize : ℕ := 16 * 1024

section Operations

variable {H₁ H₂ : Type}

namespace PieceStorage

def pieceSize (s : PieceStorage) (key : Str) : ℤ :=
  match s.cache.cacheDir.file key with
  | none => -1
  | some content => content.length

def hashPieceSha256 (s : PieceStorage) (hs : Hashers H₁ H₂) (key : Str) (pieceSize : ℤ) : H₂ :=
  match s.cache.cacheDir.file key with
  | none => hs.zeroSha256
  | some content =>
    hs.sha256 ((InStream.ofFile content).readChunks (16 * 1024) pieceSize.toNat)

def readPieceData (s : PieceStorage) (key : Str) : List UInt8 :=
  match s.cache.cacheDir.file key with
  | none => []
  | some content =>
    if content.length = 0 then []
    else
      let (stream, data) := ((InStream.ofFile content).seekg 0).read content.length false
      if stream.failbit || stream.badbit then [] else data

end PieceStorage

def v2Hashes (hs : Hashers H₁ H₂) (data : List UInt8) (n : ℕ) : List H₂ :=
  let total := data.length
  let blockSize := total / n
  (List.range n).map fun j =>
    let start := j * blockSize
    let stop := if j = n - 1 then total else (j + 1) * blockSize
    hs.sha256 (Bytes.slice data start stop)

namespace DiskIo

def asyncHash (io : DiskIo) (hs : Hashers H₁ H₂) (storage : ℕ) (piece : ℤ) (n : ℕ) :
    HashReport H₁ H₂ :=
  let zeros := List.replicate n hs.zeroSha256
  match io.storages.get storage with
  | none => ⟨zeros, hs.zeroSha1, some .noSuchFileOrDirectory⟩
  | some infoHash =>
    let key := pieceKey infoHash piece
    if io.pieces.pieceSize key ≤ 0 then ⟨zeros, hs.zeroSha1, none⟩
    else
      let data := io.pieces.readPieceData key
      if data = [] then ⟨zeros, hs.zeroSha1, none⟩
      else ⟨v2Hashes hs data n, hs.sha1 data, none⟩

def asyncHash2 (io : DiskIo) (hs : Hashers H₁ H₂) (storage : ℕ) (piece _offset : ℤ) :
    H₂ × Option DiskError :=
  match io.storages.get storage with
  | none => (hs.zeroSha256, some .noSuchFileOrDirectory)
  | some infoHash =>
    let key := pieceKey infoHash piece
    let size := io.pieces.pieceSize key
    if size ≤ 0 then (hs.zeroSha256, some .noSuchFileOrDirectory)
    -- the size is cast to an `int`
    else (io.pieces.hashPieceSha256 hs key (Word.wrapI32 size), none)

end DiskIo

def block (content : List UInt8) (j : ℕ) : List UInt8 :=
  Bytes.slice content (defaultBlockSize * j)
    (min (defaultBlockSize * (j + 1)) content.length)

def blockHashes (hs : Hashers H₁ H₂) (content : List UInt8) (n : ℕ) : List H₂ :=
  (List.range n).map fun j => hs.sha256 (block content j)

/-- Different parts of a piece have different hashes, and none of them has the default hash. -/
structure Hashers.Separates (hs : Hashers H₁ H₂) (content : List UInt8) : Prop where
  injective : ∀ a b, a <:+: content → b <:+: content → hs.sha256 a = hs.sha256 b → a = b
  nonzero : ∀ a, a <:+: content → hs.sha256 a ≠ hs.zeroSha256

/-- The entries can be the hashes of the blocks: there are none, or the piece has as many whole
blocks, or it is one block. -/
def Fits (length n : ℕ) : Prop :=
  n = 0 ∨ length = defaultBlockSize * n ∨ (n = 1 ∧ 0 < length ∧ length ≤ defaultBlockSize)

end Operations

/-! ### The data that is hashed -/

section Hashed

variable {H₁ H₂ : Type} {hs : Hashers H₁ H₂} {content : List UInt8} {n : ℕ}

lemma isInfix_slice (l : List UInt8) (a b : ℕ) : Bytes.slice l a b <:+: l :=
  (drop_suffix a (l.take b)).isInfix.trans ( take_prefix b l).isInfix

lemma v2Hashes_of_fits (h : Fits content.length n) :
    v2Hashes hs content n = blockHashes hs content n := by
  refine map_congr_left fun j hj => ?_
  rw [mem_range] at hj
  dsimp only [block]
  congr 1
  rcases h with rfl | hwhole | ⟨rfl, -, hsmall⟩
  · exact absurd hj (Nat.not_lt_zero j)
  · have hsize : content.length / n = defaultBlockSize := by
      rw [hwhole, Nat.mul_div_cancel _ (by omega)]
    rw [hsize, Nat.mul_comm j, Nat.mul_comm (j + 1)]
    congr 1
    -- the end of the last entry is the end of the piece
    split
    · next hlast => rw [hwhole, show n = j + 1 by omega, min_self]
    · exact (min_eq_left (hwhole ▸ Nat.mul_le_mul_left _ (by omega))).symm
  · obtain rfl : j = 0 := by omega
    rw [if_pos rfl, Nat.zero_mul, Nat.mul_zero, zero_add, Nat.mul_one, min_eq_right hsmall]

lemma fits_of_v2Hashes (hsep : hs.Separates content) (hcontent : content ≠ [])
    (h : v2Hashes hs content n = blockHashes hs content n) : Fits content.length n := by
  have hpos : 0 < content.length := length_pos_of_ne_nil hcontent
  have hentry : ∀ j < n, (Bytes.slice content (j * (content.length / n))
      (if j = n - 1 then content.length else (j + 1) * (content.length / n))).length =
      (block content j).length := by
    intro j hj
    have heq := List.map_inj_left.mp h j (List.mem_range.mpr hj)
    exact congrArg List.length
      (hsep.injective _ _ (isInfix_slice _ _ _) (isInfix_slice _ _ _) heq)
  simp only [block, Bytes.length_slice, min_assoc, min_self] at hentry
  rcases n with _ | _ | n
  · exact .inl rfl
  · -- one entry: the whole piece is hashed
    have hfirst := hentry 0 (Nat.zero_lt_one)
    simp only [Nat.zero_add, Nat.sub_self, if_true, Nat.zero_mul, Nat.mul_zero, Nat.mul_one,
      min_self] at hfirst
    exact .inr (.inr ⟨rfl, hpos, by omega⟩)
  · have hfirst := hentry 0 (by omega)
    have hlast := hentry (n + 1) (by omega)
    have hsmaller : content.length / (n + 1 + 1) < content.length :=
      Nat.div_lt_self hpos (by omega)
    have hwhole : (n + 1 + 1) * (content.length / (n + 1 + 1)) ≤ content.length :=
      mul_div_le content.length (n + 1 + 1)
    rw [if_neg (by omega)] at hfirst
    rw [if_pos (by omega)] at hlast
    have hsize : content.length / (n + 1 + 1) = defaultBlockSize := by omega
    rw [hsize] at hwhole hlast
    right
    left
    rw [Nat.mul_comm]
    have hstep : (n + 1 + 1) * defaultBlockSize = (n + 1) * defaultBlockSize + defaultBlockSize :=
      succ_mul _ _
    rw [Nat.mul_comm defaultBlockSize (n + 1), Nat.mul_comm defaultBlockSize (n + 1 + 1)] at hlast
    omega

end Hashed

/-! ### The hashes that are reported -/

section Reported

variable {H₁ H₂ : Type} {hs : Hashers H₁ H₂} {io : DiskIo} {storage : ℕ} {infoHash : Str}
  {piece : ℤ} {content : List UInt8}

lemma readPieceData_of_file {s : PieceStorage} {key : Str}
    (hfile : s.cache.cacheDir.file key = some content) : s.readPieceData key = content := by
  simp only [PieceStorage.readPieceData, hfile]
  split
  · next hempty => exact (eq_nil_of_length_eq_zero hempty).symm
  · have hseek : (InStream.ofFile content).seekg 0 = InStream.ofFile content := rfl
    rw [hseek, InStream.read_of_good (InStream.good_ofFile content)]
    simp [InStream.ofFile]

section

variable (hget : io.storages.get storage = some infoHash)
  (hfile : io.pieces.cache.cacheDir.file (pieceKey infoHash piece) = some content)
include hget hfile

lemma v2_asyncHash (n : ℕ) : (io.asyncHash hs storage piece n).v2 =
      if content = [] then List.replicate n hs.zeroSha256 else v2Hashes hs content n := by
  simp only [DiskIo.asyncHash, hget, PieceStorage.pieceSize, hfile, readPieceData_of_file hfile]
  by_cases hempty : content = []
  · simp [hempty]
  · have hpos : 0 < content.length := length_pos_of_ne_nil hempty
    rw [if_neg (by omega), if_neg hempty, if_neg hempty]

lemma asyncHash_blockHashes (n : ℕ) : (Fits content.length n →
      (io.asyncHash hs storage piece n).v2 = blockHashes hs content n) ∧
    (hs.Separates content → (io.asyncHash hs storage piece n).v2 = blockHashes hs content n →
      Fits content.length n) := by
  rw [v2_asyncHash hget hfile]
  by_cases hempty : content = []
  · subst hempty
    rw [if_pos rfl]
    constructor
    · rintro (rfl | hwhole | ⟨-, hpos, -⟩)
      · rfl
      · obtain rfl : n = 0 := by
          rw [length_nil, defaultBlockSize] at hwhole
          omega
        rfl
      · exact absurd hpos (lt_irrefl 0)
    · intro hsep heq
      by_contra hfits
      obtain ⟨n, rfl⟩ := exists_eq_succ_of_ne_zero fun hzero => hfits (.inl hzero)
      rw [blockHashes, replicate_succ, range_succ_eq_map, map_cons] at heq
      exact hsep.nonzero _ (isInfix_slice _ _ _) (List.cons.inj heq).1.symm
  · rw [if_neg hempty]
    exact ⟨v2Hashes_of_fits, fun hsep heq => fits_of_v2Hashes hsep hempty heq⟩

lemma asyncHash2_of_file (hempty : content ≠ []) (hlength : content.length < 2 ^ 31) (offset : ℤ) :
    io.asyncHash2 hs storage piece offset = (hs.sha256 content, none) := by
  have hpos : 0 < content.length := length_pos_of_ne_nil hempty
  simp only [DiskIo.asyncHash2, hget, PieceStorage.pieceSize, hfile,
    PieceStorage.hashPieceSha256]
  rw [if_neg (by omega), Word.wrapI32_natCast hlength,
    InStream.readChunks_eq (by decide) _ (InStream.good_ofFile content)]
  simp [InStream.ofFile]

lemma asyncHash2_block (j : ℕ) (hj : defaultBlockSize * j < content.length) :
    (j = 0 ∧ content.length ≤ defaultBlockSize →
      io.asyncHash2 hs storage piece (defaultBlockSize * j : ℕ) =
        (hs.sha256 (block content j), none)) ∧ (hs.Separates content → content.length < 2 ^ 31 →
      io.asyncHash2 hs storage piece (defaultBlockSize * j : ℕ) =
        (hs.sha256 (block content j), none) → j = 0 ∧ content.length ≤ defaultBlockSize) := by
  have hempty : content ≠ [] := ne_nil_of_length_pos (by omega)
  constructor
  · rintro ⟨rfl, hsmall⟩
    have hbound : content.length < 2 ^ 31 := hsmall.trans_lt (by decide)
    rw [asyncHash2_of_file hget hfile hempty hbound]
    have hblock : block content 0 = content := by
      rw [block, Nat.mul_zero, zero_add, Nat.mul_one, min_eq_right hsmall, Bytes.slice,
        take_length, drop_zero]
    rw [hblock]
  · intro hsep hbound heq
    rw [asyncHash2_of_file hget hfile hempty hbound] at heq
    have hsame := hsep.injective _ _ (infix_refl content) (isInfix_slice _ _ _)
      (Prod.mk.inj heq).1
    -- a block that is the whole piece starts at its front and ends at its end
    have hlength := congrArg List.length hsame
    rw [Bytes.length_slice, min_assoc, min_self] at hlength
    have hstep : defaultBlockSize * (j + 1) = defaultBlockSize * j + defaultBlockSize :=
      mul_succ _ _
    have hzero : defaultBlockSize * j = 0 := by omega
    have hj : j = 0 := (Nat.mul_eq_zero.mp hzero).resolve_left (by decide)
    exact ⟨hj, by omega⟩

end

end Reported

/-- For every piece and every number of entries: the entries of `async_hash` are the hashes of the
blocks when the piece fits their number, and `async_hash2` reports the hash of the block at an
offset when the piece is one block. For a hash function that separates the parts of the piece these
are the only cases. -/
theorem blockHashes_iff (H₁ H₂ : Type) (hs : Hashers H₁ H₂) (io : DiskIo) (storage : ℕ)
    (infoHash : Str) (piece : ℤ) (content : List UInt8)
    (hget : io.storages.get storage = some infoHash)
    (hfile : io.pieces.cache.cacheDir.file (pieceKey infoHash piece) = some content) :
    (∀ n, (Fits content.length n →
        (io.asyncHash hs storage piece n).v2 = blockHashes hs content n) ∧
      (hs.Separates content → (io.asyncHash hs storage piece n).v2 = blockHashes hs content n →
        Fits content.length n)) ∧ ∀ j, defaultBlockSize * j < content.length →
      (j = 0 ∧ content.length ≤ defaultBlockSize →
        io.asyncHash2 hs storage piece (defaultBlockSize * j : ℕ) =
          (hs.sha256 (block content j), none)) ∧ (hs.Separates content → content.length < 2 ^ 31 →
        io.asyncHash2 hs storage piece (defaultBlockSize * j : ℕ) =
          (hs.sha256 (block content j), none) → j = 0 ∧ content.length ≤ defaultBlockSize) :=
  ⟨asyncHash_blockHashes hget hfile, asyncHash2_block hget hfile⟩

def sampleHashers : Hashers (List UInt8) (Option (List UInt8)) := ⟨id, some, [], none⟩

def ioWith (content : List UInt8) : DiskIo :=
  { sampleHistory.io.newTorrent sampleHash false with
    pieces.cache.cacheDir.file := Function.update (fun _ => none) sampleKey (some content) }

lemma file_ioWith (content : List UInt8) :
    (ioWith content).pieces.cache.cacheDir.file (pieceKey sampleHash 0) = some content := by
  change Function.update (fun _ => none) sampleKey (some content) sampleKey = _
  rw [Function.update_self]

def ones (n : ℕ) : List UInt8 := List.replicate n 1

lemma slice_ones {n a b : ℕ} (h : b ≤ n) : Bytes.slice (ones n) a b = ones (b - a) := by
  rw [Bytes.slice, ones, ones, take_replicate, drop_replicate, Nat.min_eq_left h]

theorem blockHashes_of_two_blocks : (ioWith (ones 32768)).storages.get 0 = some sampleHash ∧
    (ioWith (ones 32768)).pieces.cache.cacheDir.file (pieceKey sampleHash 0) =
        some (ones 32768) ∧
    ((ioWith (ones 32768)).asyncHash sampleHashers 0 0 2).v2 =
        blockHashes sampleHashers (ones 32768) 2 :=
  ⟨rfl, file_ioWith _, ((blockHashes_iff _ _ sampleHashers _ 0 sampleHash 0 _ rfl
    (file_ioWith _)).1 2).1 (.inr (.inl List.length_replicate))⟩

def blockAndHalf : List UInt8 := ones 24576

/-- The two entries of a piece of a block and a half are hashes of parts of the same size, and
`async_hash2` reports the hash of the whole piece for the second block. -/
theorem two_blocks_of_unequal_size : ((ioWith blockAndHalf).asyncHash sampleHashers 0 0 2).v2 =
        [some (ones 12288), some (ones 12288)] ∧
    blockHashes sampleHashers blockAndHalf 2 = [some (ones 16384), some (ones 8192)] ∧
    ((ioWith blockAndHalf).asyncHash sampleHashers 0 0 2).v2 ≠
        blockHashes sampleHashers blockAndHalf 2 ∧
    (ioWith blockAndHalf).asyncHash2 sampleHashers 0 0 16384 = (some (ones 24576), none) ∧
    some (ones 24576) ≠ sampleHashers.sha256 (block blockAndHalf 1) := by
  have hfile := file_ioWith blockAndHalf
  have hlength : blockAndHalf.length = 24576 := List.length_replicate
  have hempty : blockAndHalf ≠ [] := List.ne_nil_of_length_pos (by omega)
  have hslice : ∀ a b, b ≤ 24576 → Bytes.slice blockAndHalf a b = ones (b - a) :=
    fun _ _ => slice_ones
  have hdistinct : ∀ m n, m ≠ n → some (ones m) ≠ some (ones n) := by
    intro m n hne heq
    have hlengths := congrArg List.length (Option.some.inj heq)
    rw [ones, ones, List.length_replicate, List.length_replicate] at hlengths
    exact hne hlengths
  have hv2 : ((ioWith blockAndHalf).asyncHash sampleHashers 0 0 2).v2 =
      [some (ones 12288), some (ones 12288)] := by
    rw [v2_asyncHash rfl hfile, if_neg hempty, v2Hashes, hlength]
    simp [List.range_succ, hslice, sampleHashers]
  have hblocks : blockHashes sampleHashers blockAndHalf 2 =
      [some (ones 16384), some (ones 8192)] := by
    simp [blockHashes, block, hlength, defaultBlockSize, List.range_succ, hslice, sampleHashers]
  refine ⟨hv2, hblocks, ?_, asyncHash2_of_file rfl hfile hempty (by omega) _, ?_⟩
  · rw [hv2, hblocks]
    exact fun heq => hdistinct 12288 16384 (by decide) (List.cons.inj heq).1
  · have hblock : block blockAndHalf 1 = ones 8192 := by
      simp [block, hlength, defaultBlockSize, hslice]
    rw [hblock]
    exact hdistinct 24576 8192 (by decide)

end TorrentFs.Wrapper
