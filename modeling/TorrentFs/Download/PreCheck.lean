import TorrentFs.Cache.Scan
import TorrentFs.Download.EngineReads
import TorrentFs.Download.Placement

/-!
# The check before a synchronous read

The file system reads from the engine on its own thread only when `pieces_on_disk` finds every piece
of the range in the cache. The check sums the sizes of the files before the one that is read; the
engine takes the offset of the file from libtorrent and looks at each piece again. If the two
disagreed, the thread of the file system would wait for the swarm.
-/

namespace TorrentFs.Cache.CacheManager

open Text Download

def isPieceVerified (c : CacheManager) (key : Str) : Bool := decide (key ∈ c.verifiedPieceKeys)

def pieceFile (c : CacheManager) (key : Str) : Option (List UInt8) :=
  if isValidPieceKey key then c.cacheDir.file key else none

def pieceOnDiskAtLeast (c : CacheManager) (key : Str) (expected : ℕ) : Bool :=
  (c.pieceFile key).any fun content => expected ≤ content.length

def isPieceCompleteInCache (c : CacheManager) (key : Str) (piece : ℤ) (pieceLength : ℕ)
    (numPieces : ℤ) (totalSize : ℕ) : Bool :=
  let expected := expectedPieceSize piece pieceLength numPieces totalSize
  c.isPieceVerified key && (c.metadata.get key).any (fun m => expected ≤ m.size) &&
    c.pieceOnDiskAtLeast key expected

end TorrentFs.Cache.CacheManager

namespace TorrentFs.Download

open Text Word Bytes Cache

/-! ### The check -/

/-- The pieces `pieces_on_disk` looks at, or its answer when it looks at none. The result is
`none` when the info hash or the files cannot be read. -/
def checkedRange (info : TorrentInfo) (fileIndex : ℤ) (offset size : ℕ) :
    Option (Except Bool (ℤ × ℤ)) :=
  match info.infoHash with
  | .error _ => none
  | .ok _ =>
    let pieceLength := info.pieceLength
    let numPieces := toI32 info.numPieces
    if numPieces ≤ 0 ∨ pieceLength = 0 then some (.error false)
    else
      info.files.map fun files =>
        let index := toU64 fileIndex
        let fileStartOffset := (files.take index).foldl addU64 0
        let fileSize := files.getD index 0
        let absoluteOffset := addU64 fileStartOffset offset
        let fileEnd := addU64 fileStartOffset fileSize
        if fileEnd ≤ absoluteOffset ∨ size = 0 then .error true
        else
          let size := min size (fileEnd - absoluteOffset) % 2 ^ 32
          let startPiece := toI32 (absoluteOffset / pieceLength)
          let endOffset := addU64 absoluteOffset size
          let endPiece := min (toI32 ((endOffset - 1) / pieceLength)) (numPieces - 1)
          if endPiece < startPiece ∨ numPieces ≤ startPiece then .error true
          else .ok (startPiece, endPiece)

def piecesOnDisk (c : CacheManager) (info : TorrentInfo) (fileIndex : ℤ) (offset size : ℕ) :
    Option Bool :=
  match info.infoHash with
  | .error _ => none
  | .ok infoHash =>
    (checkedRange info fileIndex offset size).map fun checked =>
      match checked with
      | .error answer => answer
      | .ok (startPiece, endPiece) =>
        (ReadRange.piecesFrom startPiece (endPiece + 1 - startPiece).toNat).all fun piece =>
          c.isPieceCompleteInCache (pieceKey infoHash piece) piece info.pieceLength
            (toI32 info.numPieces) info.totalSize

/-! ### The torrent and the answers of the engine's outside -/

/-- The metadata of a torrent with the given files, whose size and number of pieces fit the types
of the code. -/
structure Describes (info : TorrentInfo) (infoHash : Str) (files : List ℕ) (pieceLength : ℕ) :
    Prop where
  infoHash_eq : info.infoHash = .ok infoHash
  files_eq : info.files = some files
  pieceLength_eq : info.pieceLength = pieceLength
  numPieces_eq : info.numPieces = pieceCount files pieceLength
  totalSize_eq : info.totalSize = files.sum
  total_lt : files.sum < 2 ^ 64
  pieces_lt : pieceCount files pieceLength < 2 ^ 31

/-- The pieces of a read of the file `i`. -/
def Touches (files : List ℕ) (pieceLength i offset size : ℕ) (piece : ℤ) : Prop :=
  (((files.take i).sum + offset) / pieceLength : ℕ) ≤ piece ∧
    piece ≤ (((files.take i).sum + min (offset + size) (files.getD i 0) - 1) / pieceLength : ℕ)

/-- An answer to the engine: a handle of the torrent that answers, is not checking and has no stale
bit among the `touched` pieces, with the offset of file `i` as the sum of the sizes before it, over
the cache `c`. -/
structure Serves (c : CacheManager) (infoHash : Str) (files : List ℕ) (pieceLength i : ℕ)
    (touched : ℤ → Prop) (a : Answers) : Prop where
  running : a.stopping = false
  createDirs : a.createDirs = .ok ()
  addTorrent : a.addTorrent = .ok ()
  isValid : a.isValid = true
  settled : ∃ status, a.status = .ok status ∧ isSettlingState status.state = false
  fileOffset : ∃ pieceInfo, a.filePieceInfo = .ok pieceInfo ∧
    toU64 pieceInfo.fileOffset = (files.take i).sum
  torrentInfo : ∃ length count, a.torrentInfo = .ok (length, count) ∧
    toU64 length = pieceLength ∧ wrapI32 count = pieceCount files pieceLength
  not_stale : ∀ piece, touched piece → a.havePiece piece = true → a.hasStalePiece piece = false
  isPieceComplete : ∀ piece, touched piece → a.isPieceComplete piece =
    c.isPieceCompleteInCache (pieceKey infoHash piece) piece pieceLength
      (pieceCount files pieceLength) files.sum
  readPiece : ∀ piece, touched piece → a.readPiece piece = c.pieceFile (pieceKey infoHash piece)

def cacheByte (c : CacheManager) (infoHash : Str) (pieceLength position : ℕ) : Option UInt8 :=
  (c.pieceFile (pieceKey infoHash (position / pieceLength : ℕ))).bind fun content =>
    content[position % pieceLength]?

section Check

variable {c : CacheManager} {info : TorrentInfo} {infoHash : Str} {files : List ℕ}
  {pieceLength i offset size : ℕ}

lemma foldl_addU64 (l : List ℕ) : ∀ {a : ℕ}, a + l.sum < 2 ^ 64 → l.foldl addU64 a = a + l.sum := by
  induction l with
  | nil => exact fun _ => rfl
  | cons n l ih =>
    intro a h
    rw [List.sum_cons] at h ⊢
    rw [List.foldl_cons, addU64_of_lt (by omega), ih (by omega)]
    omega

lemma sum_take_le (files : List ℕ) (i : ℕ) : (files.take i).sum ≤ files.sum := by
  conv_rhs => rw [← List.take_append_drop i files, List.sum_append]
  exact Nat.le_add_right _ _

/-- A torrent with the given files; its bytes do not matter here. -/
def layoutOf (files : List ℕ) (pieceLength : ℕ) (hlength : 0 < pieceLength) (hpos : 0 < files.sum)
    (hlt : files.sum < 2 ^ 64) (hpieces : pieceCount files pieceLength < 2 ^ 31) :
    TorrentLayout where
  files := files
  pieceLength := pieceLength
  data := List.replicate files.sum 0
  data_length := List.length_replicate
  pieceLength_pos := hlength
  total_pos := hpos
  total_lt := hlt
  pieces_lt := hpieces

lemma checkedRange_eq_some (L : TorrentLayout) (h : Describes info infoHash L.files L.pieceLength)
    (hi : i < L.files.length) (hi31 : i < 2 ^ 31) (hoffset : offset < L.fileSize i)
    (hsize : 1 ≤ size) (hsize32 : size < 2 ^ 32) : checkedRange info i offset size =
      some (.ok ((L.range i offset size).startPiece, (L.range i offset size).endPiece)) := by
  have hend := L.fileOffset_add_fileSize_le hi
  have htotal := L.total_lt
  have hcount := L.pieceCount_pos
  have hpieces := L.pieces_lt
  have hpos := L.pieceLength_pos
  set fo := L.fileOffset i with hfo
  set fs := L.fileSize i with hfs
  set e := fo + min (offset + size) fs with he
  have hstart : (L.files.take i).foldl addU64 0 = fo := by
    have hle := sum_take_le L.files i
    rw [foldl_addU64 _ (by omega), Nat.zero_add]
    rfl
  have hclamp : min size (fo + fs - (fo + offset)) % 2 ^ 32 = min (offset + size) fs - offset := by
    rw [Nat.mod_eq_of_lt (by omega)]
    omega
  have hendOffset : fo + offset + (min (offset + size) fs - offset) = e := by omega
  have hlast : (e - 1) / L.pieceLength < pieceCount L.files L.pieceLength :=
    L.div_lt_pieceCount (by omega)
  have hmono : (fo + offset) / L.pieceLength ≤ (e - 1) / L.pieceLength :=
    Nat.div_le_div_right (by omega)
  unfold checkedRange
  rw [h.infoHash_eq, h.files_eq, h.pieceLength_eq, h.numPieces_eq]
  dsimp only
  rw [toI32_of_lt hpieces, if_neg (by omega), Option.map_some, toU64_natCast (by omega), hstart,
    L.getD_fileSize hi, ← hfs, addU64_of_lt (a := fo) (b := offset) (by omega),
    addU64_of_lt (a := fo) (b := fs) (by omega), if_neg (by omega), hclamp,
    addU64_of_lt (by omega), hendOffset, toI32_of_lt (by omega), toI32_of_lt (by omega),
    Int.min_eq_left (by omega), if_neg (by omega)]
  rfl

lemma pos_of_piecesOnDisk (h : Describes info infoHash files pieceLength) {fileIndex : ℤ}
    (hcheck : piecesOnDisk c info fileIndex offset size = some true) :
    0 < pieceLength ∧ 0 < files.sum := by
  by_contra hnot
  have hguard : toI32 info.numPieces ≤ 0 ∨ info.pieceLength = 0 := by
    rw [h.numPieces_eq, h.pieceLength_eq, toI32_of_lt h.pieces_lt]
    rcases Nat.eq_zero_or_pos pieceLength with hzero | hpos
    · exact .inr hzero
    · have hsum : files.sum = 0 := by omega
      left
      rw [pieceCount, hsum, Nat.div_eq_of_lt (by omega)]
      exact le_refl _
  unfold piecesOnDisk checkedRange at hcheck
  rw [h.infoHash_eq] at hcheck
  rw [if_pos hguard] at hcheck
  exact absurd hcheck (by simp)

lemma complete_of_piecesOnDisk (L : TorrentLayout)
    (h : Describes info infoHash L.files L.pieceLength) (hi : i < L.files.length)
    (hi31 : i < 2 ^ 31) (hoffset : offset < L.fileSize i) (hsize : 1 ≤ size)
    (hsize32 : size < 2 ^ 32) (hcheck : piecesOnDisk c info i offset size = some true) :
    ∀ piece ∈ (L.range i offset size).pieceRange,
      c.isPieceCompleteInCache (pieceKey infoHash piece) piece L.pieceLength
        (pieceCount L.files L.pieceLength) L.files.sum = true := by
  unfold piecesOnDisk at hcheck
  rw [h.infoHash_eq, checkedRange_eq_some L h hi hi31 hoffset hsize hsize32, h.pieceLength_eq,
    h.numPieces_eq, h.totalSize_eq, toI32_of_lt L.pieces_lt] at hcheck
  exact List.all_eq_true.mp (Option.some.inj hcheck)

lemma pieceFile_of_complete {key : Str} {piece numPieces : ℤ} {totalSize : ℕ}
    (h : c.isPieceCompleteInCache key piece pieceLength numPieces totalSize = true) :
    ∃ content, c.pieceFile key = some content ∧
      expectedPieceSize piece pieceLength numPieces totalSize ≤ content.length := by
  unfold CacheManager.isPieceCompleteInCache CacheManager.pieceOnDiskAtLeast at h
  rw [Bool.and_eq_true, Option.any_eq_true] at h
  obtain ⟨-, content, hfile, hle⟩ := h
  exact ⟨content, hfile, of_decide_eq_true hle⟩

end Check

/-! ### The bytes of the piece files -/

/-- In a read of the file `i`, no piece file before that of the last piece is longer than a piece,
and the file of the last piece ends below `2 ^ 64`. -/
structure NotOverlong (c : CacheManager) (infoHash : Str) (files : List ℕ)
    (pieceLength i offset size : ℕ) : Prop where
  before : ∀ p : ℕ, Touches files pieceLength i offset size p →
    p < ((files.take i).sum + min (offset + size) (files.getD i 0) - 1) / pieceLength →
    ∀ content ∈ c.pieceFile (pieceKey infoHash p), content.length ≤ pieceLength
  last : ∀ p, p = ((files.take i).sum + min (offset + size) (files.getD i 0) - 1) / pieceLength →
    ∀ content ∈ c.pieceFile (pieceKey infoHash p), p * pieceLength + content.length < 2 ^ 64

lemma mem_piecesFrom {piece first : ℤ} : ∀ {n : ℕ},
    piece ∈ ReadRange.piecesFrom first n ↔ first ≤ piece ∧ piece < first + n
  | 0 => by
      rw [ReadRange.piecesFrom]
      constructor
      · exact fun h => absurd h List.not_mem_nil
      · omega
  | n + 1 => by
      rw [ReadRange.piecesFrom, List.mem_cons, mem_piecesFrom]
      omega

lemma mem_pieceRange {r : ReadRange} {piece : ℤ} :
    piece ∈ r.pieceRange ↔ r.startPiece ≤ piece ∧ piece ≤ r.endPiece := by
  rw [ReadRange.pieceRange, mem_piecesFrom]
  omega

/-- The pieces of the range that the engine computes are those of the read. -/
lemma touches_of_mem {L : TorrentLayout} {i offset size : ℕ} {piece : ℤ}
    (h : piece ∈ (L.range i offset size).pieceRange) :
    Touches L.files L.pieceLength i offset size piece := mem_pieceRange.mp h

/-- The loop looks at no other pieces than those of the range. -/
lemma readLoop_congr {r : ReadRange} {pieces pieces' : ℤ → Option (List UInt8)} {ps : List ℤ}
    (h : ∀ p ∈ ps, pieces p = pieces' p) (s : ReadProgress) :
    r.readLoop pieces ps s = r.readLoop pieces' ps s := by
  induction ps generalizing s with
  | nil => rfl
  | cons p ps ih =>
    rw [ReadRange.readLoop, ReadRange.readLoop, h p List.mem_cons_self]
    simp only [ih fun q hq => h q (List.mem_cons_of_mem p hq)]

lemma readFromDisk_congr {r : ReadRange} {pieces pieces' : ℤ → Option (List UInt8)}
    (h : ∀ p ∈ r.pieceRange, pieces p = pieces' p) :
    r.readFromDisk pieces = r.readFromDisk pieces' := by
  rw [ReadRange.readFromDisk, ReadRange.readFromDisk, readLoop_congr h]

/-! ### The read of the engine -/

section Read

variable {c : CacheManager} {info : TorrentInfo} {infoHash : Str} {i offset size : ℕ}
  {L : TorrentLayout} {touched : ℤ → Prop} {a : Answers}

lemma preparedFrom_eq (h : Describes info infoHash L.files L.pieceLength)
    (ha : Serves c infoHash L.files L.pieceLength i touched a) {status : TorrentStatus}
    (hstatus : a.status = .ok status) :
    EngineState.preparedFrom a info infoHash i offset size =
      match prepareFileRead L.files L.pieceLength i offset size with
      | .error e => .error (.range e)
      | .ok none => .ok none
      | .ok (some range) => .ok (some ⟨info, i, offset, infoHash, range, status⟩) := by
  obtain ⟨pieceInfo, hpieceInfo, hfileOffset⟩ := ha.fileOffset
  obtain ⟨length, count, htorrentInfo, hlength, hcount⟩ := ha.torrentInfo
  have hsize : (if 0 ≤ (i : ℤ) then
      (info.files.bind fun files => files[(i : ℤ).toNat]?).getD u64Max else u64Max) =
      L.files.getD i u64Max := by
    rw [if_pos (Int.natCast_nonneg i), h.files_eq, Option.bind_some, Int.toNat_natCast,
      List.getD_eq_getElem?_getD]
  have hrange : prepareRange L.pieceLength (pieceCount L.files L.pieceLength) L.files.sum
      (L.files.take i).sum (L.files.getD i u64Max) offset size =
      prepareFileRead L.files L.pieceLength i offset size := by
    unfold prepareFileRead
    rw [toI32_of_lt L.pieces_lt]
  unfold EngineState.preparedFrom
  rw [if_pos ha.isValid, hstatus, hpieceInfo, htorrentInfo]
  dsimp only
  rw [hsize, hlength, hcount, h.totalSize_eq, hfileOffset]
  rcases hprepared : prepareFileRead L.files L.pieceLength i offset size with e | _ | range
  all_goals simp only [hrange, hprepared]

/-- The answers to all calls to come serve the torrent from the cache. -/
def Served (c : CacheManager) (infoHash : Str) (L : TorrentLayout) (i : ℕ) (touched : ℤ → Prop)
    (s : EngineState) : Prop := ∀ n, Serves c infoHash L.files L.pieceLength i touched (s.outside n)

variable {s : EngineState} {bytes : List UInt8}

lemma Served.ask (h : Served c infoHash L i touched s) : Served c infoHash L i touched s.ask.2 :=
  fun n => h (n + 1)

lemma ensureHandle_of_served
    (h : Describes info infoHash L.files L.pieceLength) (hs : Served c infoHash L i touched s) :
    ∃ t, s.ensureHandle info = (t, .ok ()) ∧ infoHash ∈ t.handles ∧
      Served c infoHash L i touched t := by
  unfold EngineState.ensureHandle
  rw [h.infoHash_eq]
  dsimp only
  split
  · next hmem => exact ⟨s, rfl, hmem, hs⟩
  · have ha := hs 0
    obtain ⟨length, count, htorrentInfo, -, -⟩ := ha.torrentInfo
    have hask : s.ask.1 = s.outside 0 := rfl
    rw [hask, ha.createDirs, ha.addTorrent, htorrentInfo]
    exact ⟨_, rfl, Finset.mem_insert_self _ _, hs.ask⟩

lemma prepareRead_of_served
    (h : Describes info infoHash L.files L.pieceLength) (hs : Served c infoHash L i touched s)
    (offset size : ℕ) : ∃ t a, s.prepareRead info i offset size =
        (t, EngineState.preparedFrom a info infoHash i offset size) ∧
      infoHash ∈ t.handles ∧ Serves c infoHash L.files L.pieceLength i touched a ∧
      Served c infoHash L i touched t := by
  obtain ⟨t, hensure, hmem, ht⟩ := ensureHandle_of_served h hs
  refine ⟨t.ask.2, t.ask.1, ?_, hmem, ht 0, ht.ask⟩
  unfold EngineState.prepareRead
  rw [hensure, h.infoHash_eq]
  dsimp only
  rw [if_pos hmem]

lemma allPiecesLocal_of_serves {range : ReadRange}
    (ha : Serves c infoHash L.files L.pieceLength i touched a)
    (htouched : ∀ piece ∈ range.pieceRange, touched piece) (hcomplete : ∀ piece ∈ range.pieceRange,
      c.isPieceCompleteInCache (pieceKey infoHash piece) piece L.pieceLength
        (pieceCount L.files L.pieceLength) L.files.sum = true)
    {t : EngineState} (ht : infoHash ∈ t.handles) : t.allPiecesLocal infoHash a range = true := by
  refine List.all_eq_true.mpr fun piece hpiece => ?_
  rw [EngineState.pieceIsLocal, ha.isPieceComplete piece (htouched piece hpiece),
    hcomplete piece hpiece, decide_eq_true ht,
    Bool.or_true, Bool.and_true]

lemma afterSettling_of_served (read : PendingRead)
    (hs : Served c infoHash L i touched s) (hhash : read.infoHash = infoHash)
    (hmem : infoHash ∈ s.handles) (htouched : ∀ piece ∈ read.range.pieceRange, touched piece)
    (hcomplete : ∀ piece ∈ read.range.pieceRange,
      c.isPieceCompleteInCache (pieceKey infoHash piece) piece L.pieceLength
        (pieceCount L.files L.pieceLength) L.files.sum = true)
    (hbytes : (read.range.readFromDisk fun piece => c.pieceFile (pieceKey infoHash piece)).2 =
      .ok bytes) : ∃ p, s.afterSettling read = some p ∧ p.result = some (.ok bytes) := by
  have hstale : ∀ a, Serves c infoHash L.files L.pieceLength i touched a →
      s.ask.2.stalePiecesInRange read.infoHash a read.range = [] := by
    intro a ha
    unfold EngineState.stalePiecesInRange
    split
    · refine List.filter_eq_nil_iff.mpr fun piece hpiece => ?_
      rw [Bool.and_eq_true]
      rintro ⟨hhave, hgone⟩
      have hfresh := ha.not_stale piece (htouched piece hpiece) hhave
      exact absurd hfresh (by rw [hgone]; exact Bool.noConfusion)
    · rfl
  have hdisk : ∀ t : EngineState, Served c infoHash L i touched t →
      (t.readFromDisk read.infoHash read.range).2 = .ok bytes := by
    intro t ht
    have hpieces : read.range.readFromDisk t.ask.1.readPiece =
        read.range.readFromDisk fun piece => c.pieceFile (pieceKey infoHash piece) :=
      readFromDisk_congr fun piece hpiece => (ht 0).readPiece piece (htouched piece hpiece)
    unfold EngineState.readFromDisk
    dsimp only
    rw [hpieces, hbytes]
  unfold EngineState.afterSettling
  dsimp only
  rw [if_pos (hstale s.ask.1 (hs 0))]
  unfold EngineState.beginWaiting
  dsimp only
  rw [if_pos (hhash ▸ allPiecesLocal_of_serves (hs 1) htouched hcomplete hmem)]
  exact ⟨_, rfl, congrArg some (hdisk _ hs.ask.ask)⟩

lemma admitRead_of_served (prepared : PreparedRead)
    (hs : Served c infoHash L i touched s) (hhash : prepared.infoHash = infoHash)
    (htouched : ∀ piece ∈ prepared.range.pieceRange, touched piece)
    (hmem : infoHash ∈ s.handles) (hsettled : isSettlingState prepared.status.state = false)
    (hcomplete : ∀ piece ∈ prepared.range.pieceRange,
      c.isPieceCompleteInCache (pieceKey infoHash piece) piece L.pieceLength
        (pieceCount L.files L.pieceLength) L.files.sum = true)
    (hbytes : (prepared.range.readFromDisk fun piece => c.pieceFile (pieceKey infoHash piece)).2 =
      .ok bytes) (reply : ℕ) :
    ∃ t, s.admitRead prepared reply = some t ∧ t.pendingReads = s.pendingReads ∧
      t.replies = s.replies ++ [(reply, .ok bytes)] := by
  obtain ⟨p, hp, hresult⟩ := afterSettling_of_served (PendingRead.new prepared reply s.ask.1.now)
    hs.ask hhash hmem htouched hcomplete hbytes
  have hpassed := (EngineState.afterSettling_stepped (fun _ => rfl) hp).passed
  refine ⟨p.state.send p.read.reply (.ok bytes), ?_, hpassed.pendingReads, ?_⟩
  · unfold EngineState.admitRead
    dsimp only
    rw [if_neg (by rw [PendingRead.new, hsettled]; exact Bool.false_ne_true), hp, Option.map_some,
      hresult]
  · have hreply : p.read.reply = reply := hpassed.reply
    have hreplies : p.state.replies = s.replies := hpassed.replies
    rw [EngineState.send, hreply, hreplies]

lemma readFromDisk_of_complete (hi : i < L.files.length)
    (hoffset : offset < L.fileSize i) (hsize : 1 ≤ size)
    (hcomplete : ∀ piece ∈ (L.range i offset size).pieceRange,
      c.isPieceCompleteInCache (pieceKey infoHash piece) piece L.pieceLength
        (pieceCount L.files L.pieceLength) L.files.sum = true)
    (hexact : NotOverlong c infoHash L.files L.pieceLength i offset size) :
    ∃ bytes, ((L.range i offset size).readFromDisk fun piece =>
        c.pieceFile (pieceKey infoHash piece)).2 = .ok bytes ∧
      bytes.length = min (offset + size) (L.fileSize i) - offset ∧ ∀ k < bytes.length,
        bytes[k]? = cacheByte c infoHash L.pieceLength (L.fileOffset i + offset + k) := by
  have hcovers := L.covers_range hi hoffset hsize
  have hle := hcovers.first_le_last
  have hpieces : ∀ p : ℕ, (L.fileOffset i + offset) / L.pieceLength ≤ p →
      p ≤ (L.fileOffset i + min (offset + size) (L.fileSize i) - 1) / L.pieceLength →
      ∃ content, c.pieceFile (pieceKey infoHash p) = some content ∧
        expectedPieceSize p L.pieceLength (pieceCount L.files L.pieceLength) L.files.sum ≤
          content.length := by
    intro p hfirst hlast
    refine pieceFile_of_complete (hcomplete p (mem_pieceRange.mpr ⟨?_, ?_⟩))
    · rw [hcovers.start]
      exact Int.ofNat_le.mpr hfirst
    · rw [hcovers.stop]
      exact Int.ofNat_le.mpr hlast
  have hfiles : ∀ p : ℕ, (L.fileOffset i + offset) / L.pieceLength ≤ p →
      p < (L.fileOffset i + min (offset + size) (L.fileSize i) - 1) / L.pieceLength →
      (c.pieceFile (pieceKey infoHash p)).map List.length = some L.pieceLength := by
    intro p hfirst hlast
    have htouches : Touches L.files L.pieceLength i offset size p :=
      ⟨Int.ofNat_le.mpr hfirst, Int.ofNat_le.mpr hlast.le⟩
    obtain ⟨content, hfile, hlength⟩ := hpieces p hfirst hlast.le
    have hexpected : expectedPieceSize p L.pieceLength (pieceCount L.files L.pieceLength)
        L.files.sum = L.pieceLength := hcovers.expected_of_lt hlast
    rw [hfile, Option.map_some]
    exact congrArg some (Nat.le_antisymm (hexact.before p htouches hlast content hfile)
      (hexpected ▸ hlength))
  obtain ⟨content, hfile, hlength⟩ := hpieces _ hle le_rfl
  have hread : ∃ bytes, ((L.range i offset size).readFromDisk fun piece =>
      c.pieceFile (pieceKey infoHash piece)).2 = .ok bytes :=
    hcovers.exists_ok hfiles hfile hlength (hexact.last _ rfl content hfile)
  obtain ⟨bytes, hok⟩ := hread
  have hplaced := hcovers.placed_of_exact (hexact.last _ rfl) hfiles hok
  exact ⟨bytes, hok, hplaced.length, hplaced.source⟩

lemma startRead_of_served
    (h : Describes info infoHash L.files L.pieceLength) (hi : i < L.files.length)
    (hoffset : offset < L.fileSize i) (hsize : 1 ≤ size) (hsize32 : size < 2 ^ 32)
    (hcomplete : ∀ piece ∈ (L.range i offset size).pieceRange,
      c.isPieceCompleteInCache (pieceKey infoHash piece) piece L.pieceLength
        (pieceCount L.files L.pieceLength) L.files.sum = true)
    (hbytes : ((L.range i offset size).readFromDisk fun piece =>
      c.pieceFile (pieceKey infoHash piece)).2 = .ok bytes)
    (hs : Served c infoHash L i (Touches L.files L.pieceLength i offset size) s) :
    ∃ t, s.startRead info i offset size = some t ∧ t.pendingReads = s.pendingReads ∧
      t.replies = s.replies ++ [(s.accepted, .ok bytes)] := by
  have haccepted : Served c infoHash L i (Touches L.files L.pieceLength i offset size)
    { s with accepted := s.accepted + 1 } := hs
  obtain ⟨t, a, hprepare, hmem, ha, ht⟩ := prepareRead_of_served h haccepted.ask offset size
  obtain ⟨status, hstatus, hsettled⟩ := ha.settled
  rw [preparedFrom_eq h ha hstatus, L.prepareFileRead_eq_some hi hoffset hsize hsize32] at hprepare
  obtain ⟨hpending, hreplies, -⟩ := EngineState.prepareRead_kin hprepare
  obtain ⟨u, hadmitted, hpending', hreplies'⟩ := admitRead_of_served
    ⟨info, i, offset, infoHash, L.range i offset size, status⟩ ht rfl (fun _ => touches_of_mem) hmem
    hsettled hcomplete hbytes s.accepted
  refine ⟨u, ?_, hpending'.trans hpending, hreplies'.trans (congrArg (· ++ _) hreplies)⟩
  unfold EngineState.startRead
  dsimp only
  have hrunning : (EngineState.ask { s with accepted := s.accepted + 1 }).1.stopping = false :=
    (hs 0).running
  rw [if_neg (by rw [hrunning]; exact Bool.false_ne_true), hprepare]
  exact hadmitted

lemma startRead_past_end
    (h : Describes info infoHash L.files L.pieceLength) (hi : i < L.files.length)
    (hoffset : L.fileOffset i + offset < 2 ^ 64) (hpast : L.fileSize i ≤ offset)
    (hs : Served c infoHash L i touched s) (size : ℕ) :
    ∃ t, s.startRead info i offset size = some t ∧ t.pendingReads = s.pendingReads ∧
      t.replies = s.replies ++ [(s.accepted, .ok [])] := by
  have haccepted : Served c infoHash L i touched { s with accepted := s.accepted + 1 } := hs
  obtain ⟨t, a, hprepare, -, ha, -⟩ := prepareRead_of_served h haccepted.ask offset size
  obtain ⟨status, hstatus, -⟩ := ha.settled
  rw [preparedFrom_eq h ha hstatus, L.prepareFileRead_eq_none hi hoffset hpast] at hprepare
  obtain ⟨hpending, hreplies, -⟩ := EngineState.prepareRead_kin hprepare
  refine ⟨t.send s.accepted (.ok []), ?_, hpending, congrArg (· ++ _) hreplies⟩
  have hrunning : (EngineState.ask { s with accepted := s.accepted + 1 }).1.stopping = false :=
    (hs 0).running
  unfold EngineState.startRead
  dsimp only
  rw [if_neg (by rw [hrunning]; exact Bool.false_ne_true), hprepare]

end Read

open EngineState

def cachedInfo (files : List ℕ) : TorrentInfo := ⟨.ok sampleHash, 4, 2, 8, some files⟩

def cacheWith (first second : List UInt8) : CacheManager :=
  { CacheManager.fresh ⟨none, none⟩ 100 with
    cacheDir.file := fun key =>
      if key = pieceKey sampleHash 0 then some first
      else if key = pieceKey sampleHash 1 then some second
      else none
    metadata := (FinMap.empty.insert (pieceKey sampleHash 0) ⟨0, first.length, 0⟩).insert
      (pieceKey sampleHash 1) ⟨0, second.length, 0⟩
    verifiedPieceKeys := {pieceKey sampleHash 0, pieceKey sampleHash 1} }

def answersOver (c : CacheManager) (fileOffset : ℤ) : Answers :=
  { sampleAnswers with
    filePieceInfo := .ok ⟨0, 2, fileOffset⟩
    isPieceComplete := fun piece =>
      c.isPieceCompleteInCache (pieceKey sampleHash piece) piece 4 2 8
    readPiece := fun piece => c.pieceFile (pieceKey sampleHash piece) }

lemma serves_answersOver (c : CacheManager) (files : List ℕ) (i : ℕ) (hsum : files.sum = 8)
    (hlt : (files.take i).sum < 2 ^ 64) (touched : ℤ → Prop) :
    Serves c sampleHash files 4 i touched (answersOver c (files.take i).sum) where
  running := rfl
  createDirs := rfl
  addTorrent := rfl
  isValid := rfl
  settled := ⟨_, rfl, rfl⟩
  fileOffset := ⟨_, rfl, toU64_natCast hlt⟩
  torrentInfo := ⟨4, 2, rfl, by decide, by rw [pieceCount, hsum]; decide⟩
  not_stale := fun _ _ h => absurd h Bool.false_ne_true
  isPieceComplete := fun piece _ => by rw [pieceCount, hsum]; rfl
  readPiece := fun _ _ => rfl

end TorrentFs.Download
