import TorrentFs.Cache.Eviction
import TorrentFs.Cache.KeyForms
import TorrentFs.Download.Placement
import TorrentFs.Download.PreCheck

/-!
# What a timeout does to the cache

When a read times out on a piece, `read_timed_out` first registers every piece of the range that
has bytes on disk and is not verified as incomplete, and then serves the pieces before the blocked
one. Both steps can evict: the first may remove a piece the second is about to read, and what the
first has tagged the second does not register again.

The clock readings and the failing file operations of each call are arguments, by piece.
-/

namespace TorrentFs.Cache.CacheManager

open Text

def hasPieceOnDisk (c : CacheManager) (key : Str) : Bool := (c.pieceFile key).isSome

end TorrentFs.Cache.CacheManager

namespace TorrentFs.Download

open Text Word Bytes Cache

/-- The clock readings and the failing file operations while a timeout is handled, by piece. -/
structure TimeoutAnswers where
  /-- The reading when a piece is registered as incomplete. -/
  tagNow : ℤ → ℕ
  tagFaults : ℤ → Faults
  /-- The reading when an access to a piece is counted. -/
  accessNow : ℤ → ℕ
  /-- The reading when a piece is registered as complete. -/
  registerNow : ℤ → ℕ
  registerFaults : ℤ → Faults

namespace PieceStore

def registerIncompletePiece (c : CacheManager) (now : ℕ) (f : Faults) (infoHash : Str)
    (piece : ℤ) : CacheManager :=
  match c.pieceFile (pieceKey infoHash piece) with
  | none => c
  | some file =>
    if file.length = 0 then c
    else (c.registerIncompletePiece now f (pieceKey infoHash piece) file.length).1

def tagPiece (c : CacheManager) (now : ℕ) (f : Faults) (infoHash : Str) (piece : ℤ) :
    CacheManager :=
  if !c.hasPieceOnDisk (pieceKey infoHash piece) then c
  else if c.isPieceVerified (pieceKey infoHash piece) then c
  else registerIncompletePiece c now f infoHash piece

def registerIncompletePiecesInRange (answers : TimeoutAnswers) (infoHash : Str)
    (c : CacheManager) (pieces : List ℤ) : CacheManager :=
  pieces.foldl
    (fun c piece => tagPiece c (answers.tagNow piece) (answers.tagFaults piece) infoHash piece) c

def readPiece (c : CacheManager) (infoHash : Str) (piece : ℤ) : Option (List UInt8) :=
  c.pieceFile (pieceKey infoHash piece)

def registerPiece (answers : TimeoutAnswers) (infoHash : Str) (r : ReadRange) (c : CacheManager)
    (piece : ℤ) : CacheManager :=
  if c.metadata.contains (pieceKey infoHash piece) then c
  else
    (c.addPiece (answers.registerNow piece) (answers.registerFaults piece)
      (pieceKey infoHash piece)
      (expectedPieceSize piece r.pieceLength r.numPieces r.totalSize)).1

/-- `read_from_disk`, with what it does to the cache. No file changes while it reads, so the
accesses are counted after the loop. -/
def readFromDisk (answers : TimeoutAnswers) (infoHash : Str) (cachedBefore : Finset ℤ)
    (c : CacheManager) (r : ReadRange) : CacheManager × Except ReadError (List UInt8) :=
  let (accessed, result) := r.readFromDisk (readPiece c infoHash)
  let c := (accessed.filter (· ∈ cachedBefore)).foldl
    (fun c piece => (c.recordAccess (answers.accessNow piece) (pieceKey infoHash piece)).1) c
  match result with
  | .error e => (c, .error e)
  | .ok bytes => (r.pieceRange.foldl (registerPiece answers infoHash r) c, .ok bytes)

def readTimedOut (answers : TimeoutAnswers) (infoHash : Str) (cachedBefore : Finset ℤ)
    (c : CacheManager) (r : ReadRange) (piece : ℤ) :
    CacheManager × Option (Except ReadError (List UInt8)) :=
  let c := registerIncompletePiecesInRange answers infoHash c r.pieceRange
  match r.before piece with
  | some r' =>
    let (c, result) := readFromDisk answers infoHash cachedBefore c r'
    (c, some result)
  | none => (c, none)

lemma expectedPieceSize_pos (p : ℤ) {l : ℕ} (hpos : 0 < l) {n : ℤ} {t : ℕ} :
    0 < expectedPieceSize p l n t := by
  unfold expectedPieceSize
  split
  · dsimp only
    split
    · assumption
    · exact hpos
  · exact hpos

/-! ### Keys of pieces -/

lemma pieceKey_inj {infoHash : Str} {p q : ℤ} (hp : 0 ≤ p) (hq : 0 ≤ q)
    (h : pieceKey infoHash p = pieceKey infoHash q) : p = q := by
  obtain ⟨p, rfl⟩ := Int.eq_ofNat_of_zero_le hp
  obtain ⟨q, rfl⟩ := Int.eq_ofNat_of_zero_le hq
  rw [pieceKey_natCast, pieceKey_natCast] at h
  exact congrArg Nat.cast (decimal_injective (List.append_cancel_left h))

/-! ### One piece of the first step -/

/-- The first step tags the piece of a key: its file has bytes, it is not verified, and its marker
can be written. -/
structure Taggable (c : CacheManager) (f : Faults) (key : Str) : Prop where
  file : ∃ bytes, c.pieceFile key = some bytes ∧ bytes ≠ []
  unverified : key ∉ c.verifiedPieceKeys
  create : f.createMarker = false
  sync : f.syncMarker = false

/-- What the first step does to the tags and the files of all pieces. -/
structure Tags (key : Str) (tagged : Prop) (c c' : CacheManager) : Prop where
  incomplete : ∀ k, k ∈ c'.incompletePieceKeys ↔ k ∈ c.incompletePieceKeys ∨ tagged ∧ k = key
  verified : c'.verifiedPieceKeys ⊆ c.verifiedPieceKeys
  file : ∀ k, c'.cacheDir.file k = c.cacheDir.file k ∨ c'.cacheDir.file k = none
  lost : ∀ k ∈ c.verifiedPieceKeys, isValidPieceKey k = true →
    k ∈ c'.verifiedPieceKeys ∨ c'.cacheDir.file k = none

lemma Tags.of_same {key : Str} {tagged : Prop} {c c' : CacheManager} (hnot : ¬ tagged)
    (hincomplete : c'.incompletePieceKeys = c.incompletePieceKeys)
    (hverified : c'.verifiedPieceKeys = c.verifiedPieceKeys)
    (hfile : c'.cacheDir.file = c.cacheDir.file) : Tags key tagged c c' := by
  refine ⟨fun k => ?_, hverified.le, fun k => .inl (by rw [hfile]), fun k hk _ => ?_⟩
  · rw [hincomplete]
    simp [hnot]
  · rw [hverified]
    exact .inl hk

lemma tags_registerIncompletePiece {c : CacheManager} {f : Faults} {key : Str}
    {bytes : List UInt8} (hfile : c.pieceFile key = some bytes) (hne : bytes ≠ [])
    (hverified : key ∉ c.verifiedPieceKeys) (now size : ℕ) :
    Tags key (Taggable c f key) c (c.registerIncompletePiece now f key size).1 := by
  have hvalid : isValidPieceKey key = true := by
    unfold CacheManager.pieceFile at hfile
    split at hfile
    · assumption
    · cases hfile
  rcases CacheManager.registerIncompletePiece_cases c now f key size with
    ⟨hfault, heq⟩ | ⟨hfault, heq⟩ | ⟨-, hcreate, hsync, heq⟩
  · rw [heq]
    refine .of_same (fun htag => ?_) rfl rfl rfl
    rcases hfault with hinvalid | hcreate
    · cases hvalid.symm.trans hinvalid
    · cases htag.create.symm.trans hcreate
  · rw [heq]
    refine .of_same (fun htag => ?_) rfl rfl rfl
    cases htag.sync.symm.trans hfault
  · rw [heq]
    set marked := { c with cacheDir := c.cacheDir.createMarker key }
    have hevicted := CacheManager.evicted_evictIfOver
      ((marked.upsertRecord now key size).setIncomplete key) f
    have htag : Taggable c f key := ⟨⟨bytes, hfile, hne⟩, hverified, hcreate, hsync⟩
    refine ⟨fun k => ?_, hevicted.verified.trans (Finset.erase_subset _ _), hevicted.file,
      fun k hk hkvalid => ?_⟩
    · show k ∈ (CacheManager.evictIfOver _ f).incompletePieceKeys ↔ _
      rw [hevicted.incomplete]
      show k ∈ insert key c.incompletePieceKeys ↔ _
      rw [Finset.mem_insert]
      simp only [htag, true_and]
      exact or_comm
    · refine hevicted.lost k (Finset.mem_erase.mpr ⟨?_, hk⟩) hkvalid
      rintro rfl
      exact hverified hk

lemma tags_tagPiece (c : CacheManager) (now : ℕ) (f : Faults) (infoHash : Str) (piece : ℤ) :
    Tags (pieceKey infoHash piece) (Taggable c f (pieceKey infoHash piece)) c
      (tagPiece c now f infoHash piece) := by
  unfold tagPiece
  split
  · next hmissing =>
    refine .of_same (fun htag => ?_) rfl rfl rfl
    obtain ⟨bytes, hbytes, -⟩ := htag.file
    simp [CacheManager.hasPieceOnDisk, hbytes] at hmissing
  · split
    · next hverified =>
      refine .of_same (fun htag => ?_) rfl rfl rfl
      exact htag.unverified (of_decide_eq_true hverified)
    · next hverified =>
      unfold registerIncompletePiece
      split
      · next hnone =>
        refine .of_same (fun htag => ?_) rfl rfl rfl
        obtain ⟨bytes, hbytes, -⟩ := htag.file
        cases hnone.symm.trans hbytes
      · next bytes hbytes =>
        split
        · next hempty =>
          refine .of_same (fun htag => ?_) rfl rfl rfl
          obtain ⟨bytes', hbytes', hne⟩ := htag.file
          cases hbytes.symm.trans hbytes'
          exact hne (List.length_eq_zero_iff.mp hempty)
        · next hnonempty =>
          apply tags_registerIncompletePiece hbytes
          · exact fun hnil => hnonempty (List.length_eq_zero_iff.mpr hnil)
          · exact fun hmem => hverified (decide_eq_true hmem)

lemma tagPiece_cases (c : CacheManager) (now : ℕ) (f : Faults) (infoHash : Str) (piece : ℤ) :
    tagPiece c now f infoHash piece = c ∨ ∃ bytes,
      c.pieceFile (pieceKey infoHash piece) = some bytes ∧
      pieceKey infoHash piece ∉ c.verifiedPieceKeys ∧ tagPiece c now f infoHash piece =
        (c.registerIncompletePiece now f (pieceKey infoHash piece) bytes.length).1 := by
  unfold tagPiece registerIncompletePiece
  split
  · exact .inl rfl
  split
  · exact .inl rfl
  next hverified =>
  split
  · exact .inl rfl
  next bytes hbytes =>
  split
  · exact .inl rfl
  · exact .inr ⟨bytes, hbytes, fun hmem => hverified (decide_eq_true hmem), rfl⟩

lemma tagsKept_tagPiece {c : CacheManager} (h : c.TagsKept) (now : ℕ) (f : Faults)
    (infoHash : Str) (piece : ℤ) : (tagPiece c now f infoHash piece).TagsKept := by
  rcases tagPiece_cases c now f infoHash piece with heq | ⟨bytes, -, -, heq⟩
  · rwa [heq]
  · rw [heq]
    exact h.step (show c.step (.registerIncompletePiece now f (pieceKey infoHash piece)
      bytes.length) = some _ from rfl)

lemma indexed_tagPiece {c : CacheManager} (h : c.Indexed) (now : ℕ) (f : Faults)
    (infoHash : Str) (piece : ℤ) : (tagPiece c now f infoHash piece).Indexed := by
  rcases tagPiece_cases c now f infoHash piece with heq | ⟨bytes, -, -, heq⟩
  · rwa [heq]
  · rw [heq]
    exact h.step (show c.step (.registerIncompletePiece now f (pieceKey infoHash piece)
      bytes.length) = some _ from rfl)

/-! ### Pieces that the first step does not evict -/

/-- What the registration of a piece may add to the accounted size. -/
def growth (c : CacheManager) (infoHash : Str) (piece : ℤ) : ℕ :=
  if pieceKey infoHash piece ∈ c.verifiedPieceKeys then 0
  else ((c.pieceFile (pieceKey infoHash piece)).map List.length).getD 0

/-- Before the timeout is handled, a piece of the range is safe from the evictions of the first
step: it is incomplete or not registered, or there is room for the files of the unverified pieces of
the range once some complete pieces outside the range, accessed before it, have been evicted. -/
def Sheltered (answers : TimeoutAnswers) (infoHash : Str) (c : CacheManager) (r : ReadRange)
    (piece : ℤ) : Prop :=
  ∃ older : Finset Str,
    (∀ k ∈ older, ∀ q ∈ r.pieceRange,
      k ≠ pieceKey infoHash q ∧ (answers.tagFaults q).unlink k = false) ∧
    c.Safe older (pieceKey infoHash piece) (r.pieceRange.map (growth c infoHash)).sum

lemma growth_le_of_tags {key : Str} {tagged : Prop} {c c' : CacheManager}
    (h : Tags key tagged c c') (infoHash : Str) (piece : ℤ) :
    growth c' infoHash piece ≤ growth c infoHash piece := by
  unfold growth CacheManager.pieceFile
  generalize pieceKey infoHash piece = k
  by_cases hvalid : isValidPieceKey k = true
  · simp only [if_pos hvalid]
    by_cases hverified : k ∈ c.verifiedPieceKeys
    · rcases h.lost k hverified hvalid with hkept | hnone
      · simp [hkept]
      · simp [hnone]
    · rw [if_neg hverified, if_neg fun hmem => hverified (h.verified hmem)]
      rcases h.file k with hsame | hnone
      · rw [hsame]
      · simp [hnone]
  · simp [hvalid]

lemma safe_tagPiece {c : CacheManager} {older : Finset Str} {key : Str} {rest : ℕ} {f : Faults}
    {infoHash : Str} {piece : ℤ} (h : c.Safe older key (growth c infoHash piece + rest))
    (hindexed : c.Indexed) (hdeletable : ∀ k ∈ older, f.unlink k = false)
    (hpiece : pieceKey infoHash piece ∉ older) (now : ℕ) :
    (tagPiece c now f infoHash piece).cacheDir.file key = c.cacheDir.file key ∧
      (tagPiece c now f infoHash piece).Safe older key rest := by
  rcases tagPiece_cases c now f infoHash piece with heq | ⟨bytes, hbytes, hverified, heq⟩
  · rw [heq]
    exact ⟨rfl, h.mono (Nat.le_add_left _ _)⟩
  · rw [growth, if_neg hverified, hbytes] at h
    rw [heq]
    exact h.registerIncompletePiece hindexed hdeletable now hpiece

/-! ### The first step -/

section FirstStep

variable {answers : TimeoutAnswers} {infoHash : Str} {c : CacheManager} {pieces : List ℤ}

lemma tagsKept_registerIncompletePiecesInRange (h : c.TagsKept) (pieces : List ℤ) :
    (registerIncompletePiecesInRange answers infoHash c pieces).TagsKept := by
  induction pieces generalizing c with
  | nil => exact h
  | cons piece rest ih => exact ih (tagsKept_tagPiece h _ _ infoHash piece)

lemma verified_registerIncompletePiecesInRange (c : CacheManager) (pieces : List ℤ) :
    (registerIncompletePiecesInRange answers infoHash c pieces).verifiedPieceKeys ⊆
      c.verifiedPieceKeys := by
  induction pieces generalizing c with
  | nil => exact subset_rfl
  | cons piece rest ih => exact (ih _).trans (tags_tagPiece _ _ _ _ _).verified

/-- The growth that is left covers the pieces that are left: what is evicted on the way grows no
more. -/
lemma file_of_safe {older : Finset Str} {key : Str} (hindexed : c.Indexed)
    (holder : ∀ k ∈ older, ∀ q ∈ pieces,
      k ≠ pieceKey infoHash q ∧ (answers.tagFaults q).unlink k = false)
    (h : c.Safe older key (pieces.map (growth c infoHash)).sum) :
    (registerIncompletePiecesInRange answers infoHash c pieces).cacheDir.file key =
      c.cacheDir.file key := by
  induction pieces generalizing c with
  | nil => rfl
  | cons piece rest ih =>
    set next := tagPiece c (answers.tagNow piece) (answers.tagFaults piece) infoHash piece
      with hnext
    obtain ⟨hfile, hsafe⟩ := safe_tagPiece (f := answers.tagFaults piece) h hindexed
      (fun k hk => (holder k hk piece List.mem_cons_self).2)
      (fun hmem => (holder _ hmem piece List.mem_cons_self).1 rfl) (answers.tagNow piece)
    have hless : (rest.map (growth next infoHash)).sum ≤ (rest.map (growth c infoHash)).sum :=
      List.sum_le_sum fun q _ => growth_le_of_tags (tags_tagPiece c _ _ infoHash piece) infoHash q
    exact (ih (indexed_tagPiece hindexed _ _ infoHash piece)
      (fun k hk q hq => holder k hk q (List.mem_cons_of_mem _ hq)) (hsafe.mono hless)).trans hfile

lemma incomplete_registerIncompletePiecesInRange {key : Str}
    (hother : ∀ q ∈ pieces, pieceKey infoHash q ≠ key) :
    key ∈ (registerIncompletePiecesInRange answers infoHash c pieces).incompletePieceKeys ↔
      key ∈ c.incompletePieceKeys := by
  induction pieces generalizing c with
  | nil => exact Iff.rfl
  | cons piece rest ih =>
    have htags := tags_tagPiece c (answers.tagNow piece) (answers.tagFaults piece) infoHash piece
    have hne : key ≠ pieceKey infoHash piece := (hother piece List.mem_cons_self).symm
    refine (ih fun q hq => hother q (List.mem_cons_of_mem piece hq)).trans ?_
    rw [htags.incomplete]
    simp [hne]

lemma lost_registerIncompletePiecesInRange {key : Str} (hvalid : isValidPieceKey key = true)
    (h : key ∈ c.verifiedPieceKeys ∨ c.cacheDir.file key = none) (pieces : List ℤ) :
    key ∈ (registerIncompletePiecesInRange answers infoHash c pieces).verifiedPieceKeys ∨
      (registerIncompletePiecesInRange answers infoHash c pieces).cacheDir.file key = none := by
  induction pieces generalizing c with
  | nil => exact h
  | cons piece rest ih =>
    have htags := tags_tagPiece c (answers.tagNow piece) (answers.tagFaults piece) infoHash piece
    apply ih
    rcases h with hverified | hnone
    · exact htags.lost key hverified hvalid
    · exact .inr ((htags.file key).elim (fun hsame => hsame.trans hnone) id)

end FirstStep

/-! ### The second step -/

section SecondStep

variable (answers : TimeoutAnswers) (infoHash : Str) (r : ReadRange) {c : CacheManager}

lemma incomplete_registerPiece (h : c.TagsKept) (piece : ℤ) :
    (registerPiece answers infoHash r c piece).incompletePieceKeys = c.incompletePieceKeys ∧
      (registerPiece answers infoHash r c piece).TagsKept := by
  unfold registerPiece
  set key := pieceKey infoHash piece
  set now := answers.registerNow piece
  set f := answers.registerFaults piece
  set size := expectedPieceSize piece r.pieceLength r.numPieces r.totalSize
  split
  · exact ⟨rfl, h⟩
  · next hunregistered =>
    have hstep : c.step (.addPiece now f key size) = some (c.addPiece now f key size).1 := rfl
    refine ⟨?_, h.step hstep⟩
    have hnot : key ∉ c.incompletePieceKeys := by
      intro hmem
      exact hunregistered ((c.metadata.mem_keys key).mp (h.registered hmem))
    rcases CacheManager.addPiece_cases c now f key size with heq | ⟨-, heq⟩
    · rw [heq]
    · rw [heq]
      rw [(CacheManager.evicted_evictIfOver _ f).incomplete]
      exact Finset.erase_eq_of_notMem hnot

lemma incomplete_foldl_registerPiece (h : c.TagsKept) (pieces : List ℤ) :
    (pieces.foldl (registerPiece answers infoHash r) c).incompletePieceKeys =
      c.incompletePieceKeys := by
  induction pieces generalizing c with
  | nil => rfl
  | cons piece rest ih =>
    obtain ⟨hsame, hkept⟩ := incomplete_registerPiece answers infoHash r h piece
    exact (ih hkept).trans hsame

lemma incomplete_foldl_recordAccess (h : c.TagsKept) (now : ℤ → ℕ) (pieces : List ℤ) :
    (pieces.foldl (fun c piece => (c.recordAccess (now piece) (pieceKey infoHash piece)).1)
        c).incompletePieceKeys = c.incompletePieceKeys ∧
      (pieces.foldl (fun c piece => (c.recordAccess (now piece) (pieceKey infoHash piece)).1)
        c).TagsKept := by
  induction pieces generalizing c with
  | nil => exact ⟨rfl, h⟩
  | cons piece rest ih =>
    have hstep : c.step (.recordAccess (now piece) (pieceKey infoHash piece)) =
      some (c.recordAccess (now piece) (pieceKey infoHash piece)).1 := rfl
    have hsame : (c.recordAccess (now piece) (pieceKey infoHash piece)).1.incompletePieceKeys =
        c.incompletePieceKeys := by
      unfold CacheManager.recordAccess
      split <;> rfl
    obtain ⟨hrest, hkept⟩ := ih (h.step hstep)
    exact ⟨hrest.trans hsame, hkept⟩

lemma incomplete_readFromDisk (h : c.TagsKept) (cachedBefore : Finset ℤ) :
    (readFromDisk answers infoHash cachedBefore c r).1.incompletePieceKeys =
      c.incompletePieceKeys := by
  unfold readFromDisk
  obtain ⟨hsame, hkept⟩ := incomplete_foldl_recordAccess infoHash h answers.accessNow
    ((r.readFromDisk (readPiece c infoHash)).1.filter (· ∈ cachedBefore))
  dsimp only
  split
  · exact hsame
  · exact (incomplete_foldl_registerPiece answers infoHash r hkept r.pieceRange).trans hsame

lemma incomplete_readTimedOut (h : c.TagsKept) (cachedBefore : Finset ℤ) (piece : ℤ) :
    (readTimedOut answers infoHash cachedBefore c r piece).1.incompletePieceKeys =
      (registerIncompletePiecesInRange answers infoHash c r.pieceRange).incompletePieceKeys := by
  unfold readTimedOut
  split
  · exact incomplete_readFromDisk answers infoHash _
      (tagsKept_registerIncompletePiecesInRange h _) cachedBefore
  · rfl

end SecondStep

/-! ### Complete pieces and their tags -/

/-- The piece is complete: libtorrent has it and its file has the expected size. -/
structure CompleteOnDisk (c : CacheManager) (infoHash : Str) (r : ReadRange) (havePiece : ℤ → Bool)
    (piece : ℤ) : Prop where
  have_piece : havePiece piece = true
  file : ∃ bytes, c.pieceFile (pieceKey infoHash piece) = some bytes ∧
    bytes.length = expectedPieceSize piece r.pieceLength r.numPieces r.totalSize

/-- Before the timeout is handled, the piece of a key is not tagged, and it is verified or its
marker cannot be written. -/
structure Spared (c : CacheManager) (f : Faults) (key : Str) : Prop where
  untagged : key ∉ c.incompletePieceKeys
  passed : key ∈ c.verifiedPieceKeys ∨ f.createMarker = true ∨ f.syncMarker = true

section Tagged

variable {answers : TimeoutAnswers} {infoHash : Str} {r : ReadRange} {c : CacheManager}

lemma nodup_piecesFrom (first : ℤ) (n : ℕ) : (ReadRange.piecesFrom first n).Nodup := by
  induction n generalizing first with
  | zero => exact List.nodup_nil
  | succ n ih =>
    rw [ReadRange.piecesFrom, List.nodup_cons]
    refine ⟨fun hmem => ?_, ih (first + 1)⟩
    have := mem_piecesFrom.mp hmem
    omega

lemma pieceKey_ne_of_split (hstart : 0 ≤ r.startPiece) {before after : List ℤ} {p q : ℤ}
    (hsplit : r.pieceRange = before ++ p :: after) (hq : q ∈ before ∨ q ∈ after) :
    pieceKey infoHash q ≠ pieceKey infoHash p := by
  have hnodup : (before ++ p :: after).Nodup := hsplit ▸ nodup_piecesFrom _ _
  have hnonneg : ∀ q ∈ before ++ p :: after, 0 ≤ q := by
    intro q hq
    rw [← hsplit] at hq
    exact hstart.trans (mem_pieceRange.mp hq).1
  intro heq
  have hqp : q = p := pieceKey_inj (hnonneg q (by simp; tauto)) (hnonneg p (by simp)) heq
  rw [List.nodup_middle, List.nodup_cons, List.mem_append] at hnodup
  exact hnodup.1 (hqp ▸ hq)

lemma Sheltered.pieceFile_eq {p : ℤ} (h : Sheltered answers infoHash c r p) (hindexed : c.Indexed)
    {before after : List ℤ} (hsplit : r.pieceRange = before ++ after) :
    (registerIncompletePiecesInRange answers infoHash c before).pieceFile (pieceKey infoHash p) =
      c.pieceFile (pieceKey infoHash p) := by
  obtain ⟨older, holder, hsafe⟩ := h
  rw [hsplit] at holder hsafe
  rw [List.map_append, List.sum_append] at hsafe
  unfold CacheManager.pieceFile
  rw [file_of_safe hindexed (fun k hk q hq => holder k hk q (List.mem_append_left _ hq))
    (hsafe.mono (Nat.le_add_right _ _))]

/-- A timed-out read tags a piece of its range if it was tagged before or the first step can tag it
when it comes to it. -/
lemma tagged_iff_taggable (hkept : c.TagsKept) (hstart : 0 ≤ r.startPiece) {before after : List ℤ}
    {p : ℤ} (hsplit : r.pieceRange = before ++ p :: after) (cachedBefore : Finset ℤ) (piece : ℤ) :
    pieceKey infoHash p ∈
        (readTimedOut answers infoHash cachedBefore c r piece).1.incompletePieceKeys ↔
      pieceKey infoHash p ∈ c.incompletePieceKeys ∨
        Taggable (registerIncompletePiecesInRange answers infoHash c before) (answers.tagFaults p)
          (pieceKey infoHash p) := by
  set turn := registerIncompletePiecesInRange answers infoHash c before with hturn
  have hfold : registerIncompletePiecesInRange answers infoHash c r.pieceRange =
      registerIncompletePiecesInRange answers infoHash
        (tagPiece turn (answers.tagNow p) (answers.tagFaults p) infoHash p) after := by
    rw [hsplit, hturn, registerIncompletePiecesInRange, List.foldl_append, List.foldl_cons]
    rfl
  rw [incomplete_readTimedOut answers infoHash r hkept, hfold,
    incomplete_registerIncompletePiecesInRange fun q hq =>
      pieceKey_ne_of_split hstart hsplit (.inr hq), (tags_tagPiece _ _ _ _ _).incomplete, hturn,
    incomplete_registerIncompletePiecesInRange fun q hq =>
      pieceKey_ne_of_split hstart hsplit (.inl hq), and_iff_left rfl]

def twoPieces : TorrentLayout where
  files := [8]
  pieceLength := 4
  data := [1, 2, 3, 4, 5, 6, 7, 8]
  data_length := TorrentLayout.twoFiles.data_length
  pieceLength_pos := TorrentLayout.twoFiles.pieceLength_pos
  total_pos := by decide
  total_lt := by decide
  pieces_lt := by decide

def wholeFile : ReadRange := twoPieces.range 0 0 8

def halfDownloaded : Disk where
  file := fun key =>
    if key = pieceKey sampleHash 0 then some [1, 2, 3, 4]
    else if key = pieceKey sampleHash 1 then some [5, 6, 7] else none
  marker := fun _ => false

def cacheOf (records : FinMap Str PieceMetadata) (verified : Finset Str) (maxCacheSize : ℕ)
    (currentSize : ℕ) : CacheManager where
  cacheDir := halfDownloaded
  metadata := records
  maxCacheSize := maxCacheSize
  currentSize := currentSize
  missCount := 0
  hitCount := 0
  evictionCount := 0
  incompletePieceKeys := ∅
  verifiedPieceKeys := verified
  lru := CacheManager.lruOf records
  snapshotGeneration := 1
  metadataDirty := false

def firstRecord : FinMap Str PieceMetadata := FinMap.empty.insert (pieceKey sampleHash 0) ⟨1, 4, 0⟩

def quietAnswers : TimeoutAnswers := ⟨fun _ => 2, fun _ => .none, fun _ => 2, fun _ => 2,
  fun _ => .none⟩

def haveFirst (p : ℤ) : Bool := p == 0

def firstVerified : CacheManager := cacheOf firstRecord {pieceKey sampleHash 0} 100 4

end Tagged

/-! ### The bytes before the blocked piece -/

section Served

variable {answers : TimeoutAnswers} {infoHash : Str} {r : ReadRange} {c : CacheManager}
  {data : List UInt8} {first last b : ℕ}

lemma result_readTimedOut {r' : ReadRange} {piece : ℤ} (hbefore : r.before piece = some r')
    (cachedBefore : Finset ℤ) : (readTimedOut answers infoHash cachedBefore c r piece).2 =
      some (r'.readFromDisk (readPiece
        (registerIncompletePiecesInRange answers infoHash c r.pieceRange) infoHash)).2 := by
  unfold readTimedOut readFromDisk
  simp only [hbefore]
  split
  · next e heq => rw [heq]
  · next bytes heq => rw [heq]

/-- The engine, which asks the store for the pieces after the first step, replies with this
result. -/
theorem readTimedOut_engine {s : EngineState} {read : PendingRead} {piece : ℤ} {r' : ReadRange}
    (hbefore : read.range.before piece = some r') (hstore : (s.outside 0).readPiece = readPiece
      (registerIncompletePiecesInRange answers read.infoHash c read.range.pieceRange) read.infoHash)
    (windowSecs : ℕ) (snapshot : Option TorrentStatus) (cachedBefore : Finset ℤ) :
    (readTimedOut answers read.infoHash cachedBefore c read.range piece).2.map
        (Except.mapError TorrentError.range) =
      some (s.readTimedOut read piece windowSecs snapshot).2 := by
  rw [result_readTimedOut hbefore, EngineState.readTimedOut, hbefore, Option.map_some]
  unfold EngineState.readFromDisk EngineState.ask
  dsimp only
  rw [hstore]
  cases (r'.readFromDisk (readPiece
    (registerIncompletePiecesInRange answers read.infoHash c read.range.pieceRange)
    read.infoHash)).2 <;> rfl

lemma fromFiles_congr (h : r.Covers data first last) {pieces pieces' : ℤ → Option (List UInt8)}
    {bytes : List UInt8} (hlen : bytes.length ≤ b * r.pieceLength - r.absoluteOffset)
    (hsame : ∀ p : ℕ, first ≤ p → p < b → pieces p = pieces' p)
    (hfrom : r.FromFiles pieces bytes) : r.FromFiles pieces' bytes := by
  intro k hk
  have hpos := h.length_pos
  have hlow : first ≤ (r.absoluteOffset + k) / r.pieceLength :=
    (Nat.le_div_iff_mul_le hpos).mpr (by have := h.first_le; omega)
  have hhigh : (r.absoluteOffset + k) / r.pieceLength < b :=
    (Nat.div_lt_iff_lt_mul hpos).mpr (by omega)
  rw [hfrom k hk, ReadRange.fileByte, ReadRange.fileByte, hsame _ hlow hhigh]

lemma served_of_kept (h : r.Covers data first last) (hsize : r.size < 2 ^ 32) (hlt : first < b)
    (hlast : b ≤ last)
    (hlocal : ∀ p : ℕ, first ≤ p → p < b → ∃ bytes, readPiece c infoHash p = some bytes ∧
      bytes.length = expectedPieceSize p r.pieceLength r.numPieces r.totalSize)
    (hsame : ∀ p : ℕ, first ≤ p → p < b →
      readPiece (registerIncompletePiecesInRange answers infoHash c r.pieceRange) infoHash p =
        readPiece c infoHash p) (cachedBefore : Finset ℤ) :
    ∃ bytes, (readTimedOut answers infoHash cachedBefore c r b).2 = some (.ok bytes) ∧
        bytes.length = b * r.pieceLength - r.absoluteOffset ∧
        r.FromFiles (readPiece c infoHash) bytes := by
  set tagged := registerIncompletePiecesInRange answers infoHash c r.pieceRange with htagged
  have hlocal' : ∀ p : ℕ, first ≤ p → p < b →
      (readPiece c infoHash p).map List.length = some r.pieceLength := by
    intro p hp hpb
    obtain ⟨bytes, hbytes, hlen⟩ := hlocal p hp hpb
    rw [hbytes, Option.map_some, hlen, h.expected_of_lt (by omega)]
  obtain ⟨r', hbefore, hcovers, hpl, habs, hnum, htotal, hcut⟩ := h.before hsize hlt hlast
  rw [result_readTimedOut hbefore, ← htagged]
  have hexact : ∀ p : ℕ, first ≤ p → p < b - 1 →
      (readPiece tagged infoHash p).map List.length = some r'.pieceLength := by
    intro p hp hpb
    rw [hsame p hp (by omega), hpl]
    exact hlocal' p hp (by omega)
  obtain ⟨file, hfound, hlen⟩ := hlocal (b - 1) (by omega) (by omega)
  have hfound' : readPiece tagged infoHash ((b - 1 : ℕ) : ℤ) = some file := by
    rw [hsame (b - 1) (by omega) (by omega)]
    exact hfound
  have hdata := h.data_lt
  have hlen' : file.length = r'.pieceLength := by
    rw [hlen, hpl]
    exact h.expected_of_lt (by omega)
  have hfit : (b - 1) * r'.pieceLength + file.length < 2 ^ 64 := by
    have hhigh : b * r.pieceLength ≤ last * r.pieceLength := Nat.mul_le_mul_right _ hlast
    have hprev : (b - 1 + 1) * r.pieceLength = (b - 1) * r.pieceLength + r.pieceLength :=
      Nat.succ_mul _ _
    rw [show b - 1 + 1 = b by omega] at hprev
    have hstop := h.last_lt
    have hinside := h.end_le
    rw [hlen', hpl]
    omega
  obtain ⟨bytes, hok⟩ := hcovers.exists_ok hexact hfound'
    (by rw [hpl, hnum, htotal, hlen]) hfit
  have hplaced := hcovers.placed_of_exact (fun file' hfile' => by
    cases hfound'.symm.trans hfile'
    exact hfit) hexact hok
  refine ⟨bytes, congrArg some hok, hplaced.length.trans hcut, ?_⟩
  have hfrom : r.FromFiles (readPiece tagged infoHash) bytes := by
    intro k hk
    have := hplaced.source k hk
    rw [ReadRange.fileByte, hpl, habs] at this
    exact this
  exact fromFiles_congr h (hplaced.length.trans hcut).le hsame hfrom

end Served

end PieceStore

namespace TorrentLayout

open PieceStore

/-- A cache of ten bytes with nine accounted: the first piece, and five bytes of a piece outside the
range that was accessed before it. -/
def crowded : CacheManager :=
  cacheOf (firstRecord.insert (pieceKey sampleHash 7) ⟨0, 5, 0⟩) {pieceKey sampleHash 0} 10 9

end TorrentLayout

end TorrentFs.Download
