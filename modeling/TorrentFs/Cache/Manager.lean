import Mathlib.Data.Prod.Lex
import Mathlib.Data.Finset.Max
import TorrentFs.Lib.FinMap
import TorrentFs.Cache.Key

/-!
# The cache manager

The state of `CacheManager` and its mutating operations, each a function from the state before
to the state after. The clock readings and the file operations that fail are arguments, so a
statement for all of them covers every answer of the system.

`cacheDir` is the part of the cache directory the operations reach after the startup scan: a
valid key determines the path `pieces/<info_hash>/<key>` and the path of its marker, so the
directory is a lookup by key. The eviction callbacks are left out: they receive an evicted key
and cannot reach the manager, which is locked while they run.
-/

namespace TorrentFs.Cache

open Text Word Finset

structure PieceMetadata where
  /-- Milliseconds since the epoch at the last access. -/
  lastAccessed : ℕ
  /-- Registered size in bytes. -/
  size : ℕ
  /-- Number of accesses. -/
  hitCount : ℕ
deriving DecidableEq

/-- The files of the cache directory, by the piece key that names them. -/
structure Disk where
  /-- Content of `pieces/<info_hash>/<key>`. -/
  file : Str → Option (List UInt8)
  /-- Whether `pieces/<info_hash>/<key>.incomplete` exists. -/
  marker : Str → Bool

structure Faults where
  /-- Unlinking the piece file of a key fails with an error other than `NotFound`. -/
  unlink : Str → Bool
  /-- Unlinking the marker of a key fails. -/
  unlinkMarker : Str → Bool
  /-- Creating the marker fails. -/
  createMarker : Bool
  /-- The fsync of a created marker fails. -/
  syncMarker : Bool

def Faults.none : Faults := ⟨fun _ => false, fun _ => false, false, false⟩

inductive CacheError
  /-- `Piece not found in cache: {key}`. -/
  | pieceNotFound (key : Str)
  /-- `Refusing to register piece with invalid key: {key}`. -/
  | invalidKey (key : Str)
  /-- `Failed to create incomplete marker {path}`. -/
  | createMarkerFailed (key : Str)
  /-- `Failed to fsync incomplete marker {path}`. -/
  | syncMarkerFailed (key : Str)
  /-- `Failed to remove piece file {path}`. -/
  | removeFailed (key : Str)
deriving DecidableEq

/-- `CacheManager`: the map of registered pieces and what is kept beside it. -/
structure CacheManager where
  /-- The content of the cache directory. -/
  cacheDir : Disk
  /-- The registered pieces. -/
  metadata : FinMap Str PieceMetadata
  /-- The size budget. -/
  maxCacheSize : ℕ
  /-- The accounted size. -/
  currentSize : ℕ
  /-- Accesses and registrations that found no record. -/
  missCount : ℕ
  /-- Accesses that found a record. -/
  hitCount : ℕ
  /-- Pieces evicted so far. -/
  evictionCount : ℕ
  /-- Pieces whose file is still being filled. -/
  incompletePieceKeys : Finset Str
  /-- Pieces known to be complete. -/
  verifiedPieceKeys : Finset Str
  /-- Access order of the map, as `(last_accessed, piece_key)`. -/
  lru : Finset (ℕ ×ₗ Str)
  /-- Generation of the last snapshot taken. -/
  snapshotGeneration : ℕ
  /-- The map changed since the last write to disk. -/
  metadataDirty : Bool

namespace Disk

def removeFile (d : Disk) (key : Str) : Disk :=
  { d with file := Function.update d.file key none }

def removeMarker (d : Disk) (f : Faults) (key : Str) : Disk :=
  if f.unlinkMarker key then d else { d with marker := Function.update d.marker key false }

def createMarker (d : Disk) (key : Str) : Disk :=
  { d with marker := Function.update d.marker key true }

end Disk

namespace CacheManager

def registeredSize (c : CacheManager) (key : Str) : ℕ :=
  c.metadata.weight PieceMetadata.size key

def registeredTotal (c : CacheManager) : ℕ := c.metadata.total PieceMetadata.size

def unindex (lru : Finset (ℕ ×ₗ Str)) (m : FinMap Str PieceMetadata) (key : Str) :
    Finset (ℕ ×ₗ Str) :=
  match m.get key with
  | some info => lru.erase (toLex (info.lastAccessed, key))
  | none => lru

def recordAccess (c : CacheManager) (now : ℕ) (key : Str) : CacheManager × Except CacheError Unit :=
  match c.metadata.get key with
  | some info =>
    ({ c with
        lru := insert (toLex (now, key)) (unindex c.lru c.metadata key)
        metadata := c.metadata.insert key
          { info with lastAccessed := now, hitCount := addU64 info.hitCount 1 }
        hitCount := addU64 c.hitCount 1
        metadataDirty := true }, .ok ())
  | none => ({ c with missCount := addU64 c.missCount 1 }, .error (.pieceNotFound key))

/-- The common part of `add_piece` and `register_incomplete_piece`: replace the record of a key,
keeping its hit count, move it to `now` in the access order, and credit the growth. -/
def upsertRecord (c : CacheManager) (now : ℕ) (key : Str) (size : ℕ) : CacheManager :=
  let prev := c.metadata.get key
  { c with
    metadata := c.metadata.insert key
      { lastAccessed := now, size := size, hitCount := (prev.map PieceMetadata.hitCount).getD 0 }
    missCount := if prev.isNone then addU64 c.missCount 1 else c.missCount
    lru := insert (toLex (now, key)) (unindex c.lru c.metadata key)
    -- `current_size += size.saturating_sub(old_size)`: a smaller size is not debited
    currentSize := addU64 c.currentSize (size - c.registeredSize key) }

def forgetPiece (c : CacheManager) (key : Str) : CacheManager :=
  { c with
    metadata := c.metadata.erase key
    lru := unindex c.lru c.metadata key
    verifiedPieceKeys := c.verifiedPieceKeys.erase key
    incompletePieceKeys := c.incompletePieceKeys.erase key }

/-- `remove_piece`: unlink the file and its marker, debit the registered size and forget the
key. A failed unlink leaves everything as it was. -/
def removePiece (c : CacheManager) (f : Faults) (key : Str) : Except CacheError CacheManager :=
  if !isValidPieceKey key then .ok (c.forgetPiece key)
  else if f.unlink key then .error (.removeFailed key)
  else .ok
    { forgetPiece
        { c with
          cacheDir := (c.cacheDir.removeFile key).removeMarker f key
          currentSize := c.currentSize - c.registeredSize key } key with
      metadataDirty := true }

/-- What a removal of `key` that succeeds does to the manager. -/
structure Removed (c : CacheManager) (key : Str) (c' : CacheManager) : Prop where
  metadata : c'.metadata = c.metadata.erase key
  lru : c'.lru = unindex c.lru c.metadata key
  verified : c'.verifiedPieceKeys = c.verifiedPieceKeys.erase key
  incomplete : c'.incompletePieceKeys = c.incompletePieceKeys.erase key
  size : c'.currentSize =
    if isValidPieceKey key then c.currentSize - c.registeredSize key else c.currentSize
  file : ∀ k, k ≠ key → c'.cacheDir.file k = c.cacheDir.file k
  marker : ∀ k, k ≠ key → c'.cacheDir.marker k = c.cacheDir.marker k

variable {c : CacheManager} {f : Faults}

lemma removed_of_removePiece {c' : CacheManager} {key : Str}
    (h : c.removePiece f key = .ok c') : Removed c key c' := by
  unfold removePiece at h
  by_cases hvalid : isValidPieceKey key = true
  · simp only [hvalid, Bool.not_true, Bool.false_eq_true, if_false] at h
    split at h
    · cases h
    · cases h
      -- the marker may or may not be unlinked; neither concerns another file
      refine ⟨rfl, rfl, rfl, rfl, by simp [hvalid, forgetPiece], fun k hk => ?_, fun k hk => ?_⟩
      all_goals
        by_cases hmarker : f.unlinkMarker key = true <;>
          simp [forgetPiece, Disk.removeMarker, Disk.removeFile, hmarker, hk]
  · simp only [hvalid, Bool.not_false, if_true, Except.ok.injEq] at h
    subst h
    exact ⟨rfl, rfl, rfl, rfl, by simp [hvalid, forgetPiece], fun _ _ => rfl, fun _ _ => rfl⟩

/-- A removal unlinks the file of the piece and, unless that fails, its marker. -/
lemma unlinked_of_removePiece {c' : CacheManager} {key : Str}
    (hvalid : isValidPieceKey key = true) (h : c.removePiece f key = .ok c') :
    c'.cacheDir.file key = none ∧
      (c'.cacheDir.marker key = false ∨ f.unlinkMarker key = true) := by
  simp only [removePiece, hvalid, Bool.not_true, Bool.false_eq_true, if_false] at h
  split at h
  · cases h
  · cases h
    by_cases hmarker : f.unlinkMarker key = true <;>
      simp [forgetPiece, Disk.removeMarker, Disk.removeFile, hmarker]

def oldest (c : CacheManager) (skipped : Finset Str) : Option (ℕ ×ₗ Str) :=
  (c.lru.filter fun e =>
    (ofLex e).2 ∉ c.incompletePieceKeys ∧ (ofLex e).2 ∉ skipped).min

def evictStep (f : Faults) (p : CacheManager × Finset Str) : Option (CacheManager × Finset Str) :=
  let (c, skipped) := p
  if c.maxCacheSize < c.currentSize ∧ c.metadata.isEmpty = false then
    match c.oldest skipped with
    | none => none
    | some e =>
      match c.removePiece f (ofLex e).2 with
      | .ok c' => some ({ c' with evictionCount := addU64 c'.evictionCount 1 }, skipped)
      | .error _ => some (c, insert (ofLex e).2 skipped)
  else none

def evictLoop (f : Faults) : ℕ → CacheManager × Finset Str → CacheManager × Finset Str
  | 0, p => p
  | n + 1, p =>
    match evictStep f p with
    | none => p
    | some p' => evictLoop f n p'

/-- `evict_lru`, with the keys it skipped. Every iteration uses up one entry of the access
order, so as many iterations as there are entries reach the end of the loop. -/
def evictLru (c : CacheManager) (f : Faults) : CacheManager × Finset Str :=
  evictLoop f c.lru.card (c, ∅)

/-- The file of a key is there to be unlinked and cannot be. An invalid key names no file. -/
def Undeletable (f : Faults) (key : Str) : Prop :=
  isValidPieceKey key = true ∧ f.unlink key = true

instance (f : Faults) (key : Str) : Decidable (Undeletable f key) :=
  inferInstanceAs (Decidable (_ ∧ _))

lemma removePiece_eq_error_iff {key : Str} {e : CacheError} :
    c.removePiece f key = .error e ↔ Undeletable f key ∧ e = .removeFailed key := by
  unfold removePiece Undeletable
  by_cases hvalid : isValidPieceKey key = true
  · by_cases hunlink : f.unlink key = true <;> simp [hvalid, hunlink, eq_comm]
  · simp [hvalid]

lemma evictStep_cases {skipped : Finset Str}
    {p' : CacheManager × Finset Str} (h : evictStep f (c, skipped) = some p') :
    ∃ e, c.maxCacheSize < c.currentSize ∧ c.oldest skipped = some e ∧
      ((∃ c₁, c.removePiece f (ofLex e).2 = .ok c₁ ∧
          p' = ({ c₁ with evictionCount := addU64 c₁.evictionCount 1 }, skipped)) ∨
        Undeletable f (ofLex e).2 ∧ p' = (c, insert (ofLex e).2 skipped)) := by
  simp only [evictStep] at h
  split at h
  · next hover =>
    cases hold : c.oldest skipped with
    | none => simp [hold] at h
    | some e =>
      refine ⟨e, hover.1, rfl, ?_⟩
      cases hrm : c.removePiece f (ofLex e).2 with
      | ok c₁ =>
        simp only [hold, hrm, Option.some.injEq] at h
        exact .inl ⟨c₁, rfl, h.symm⟩
      | error err =>
        simp only [hold, hrm, Option.some.injEq] at h
        exact .inr ⟨(removePiece_eq_error_iff.mp hrm).1, h.symm⟩
  · cases h

lemma oldest_eq_some {skipped : Finset Str} {e : ℕ ×ₗ Str} (h : c.oldest skipped = some e) :
    e ∈ c.lru ∧ (ofLex e).2 ∉ c.incompletePieceKeys ∧ (ofLex e).2 ∉ skipped ∧
      ∀ e' ∈ c.lru, (ofLex e').2 ∉ c.incompletePieceKeys → (ofLex e').2 ∉ skipped → e ≤ e' := by
  obtain ⟨hmem, hinc, hskip⟩ := Finset.mem_filter.mp (mem_of_min h)
  refine ⟨hmem, hinc, hskip, fun e' hmem' hinc' hskip' => ?_⟩
  exact min_le_of_eq (Finset.mem_filter.mpr ⟨hmem', hinc', hskip'⟩) h

lemma evictLoop_invariant {motive : CacheManager × Finset Str → Prop}
    (hstep : ∀ p p', motive p → evictStep f p = some p' → motive p') (n : ℕ)
    (p : CacheManager × Finset Str) (h : motive p) : motive (evictLoop f n p) := by
  induction n generalizing p with
  | zero => exact h
  | succ n ih =>
    unfold evictLoop
    cases heq : evictStep f p with
    | none => exact h
    | some p' => exact ih p' (hstep p p' h heq)

lemma evictLoop_preserves {Inv : CacheManager → Prop}
    (hremove : ∀ c key c', Inv c → key ∉ c.incompletePieceKeys →
      c.removePiece f key = .ok c' → Inv c')
    (hcount : ∀ c n, Inv c → Inv { c with evictionCount := n })
    (n : ℕ) (p : CacheManager × Finset Str) (h : Inv p.1) : Inv (evictLoop f n p).1 := by
  refine evictLoop_invariant (motive := fun p => Inv p.1) (fun p p' hp hstep => ?_) n p h
  obtain ⟨e, -, hold, ⟨c₁, hrm, rfl⟩ | ⟨-, rfl⟩⟩ := evictStep_cases hstep
  · exact hcount _ _ (hremove p.1 _ c₁ hp (oldest_eq_some hold).2.1 hrm)
  · exact hp

def evictIfOver (c : CacheManager) (f : Faults) : CacheManager :=
  if c.maxCacheSize < c.currentSize then (c.evictLru f).1 else c

lemma evictIfOver_preserves {Inv : CacheManager → Prop}
    (hremove : ∀ c key c', Inv c → key ∉ c.incompletePieceKeys →
      c.removePiece f key = .ok c' → Inv c')
    (hcount : ∀ c n, Inv c → Inv { c with evictionCount := n })
    (h : Inv c) : Inv (c.evictIfOver f) := by
  unfold evictIfOver
  split
  · exact evictLoop_preserves hremove hcount _ _ h
  · exact h

def setComplete (c : CacheManager) (f : Faults) (key : Str) : CacheManager :=
  { c with
    verifiedPieceKeys := insert key c.verifiedPieceKeys
    incompletePieceKeys := c.incompletePieceKeys.erase key
    cacheDir := if c.cacheDir.marker key then c.cacheDir.removeMarker f key else c.cacheDir }

def setIncomplete (c : CacheManager) (key : Str) : CacheManager :=
  { c with
    verifiedPieceKeys := c.verifiedPieceKeys.erase key
    incompletePieceKeys := insert key c.incompletePieceKeys }

def addPiece (c : CacheManager) (now : ℕ) (f : Faults) (key : Str) (size : ℕ) :
    CacheManager × Except CacheError Unit :=
  if !isValidPieceKey key then (c, .error (.invalidKey key))
  else
    let c' := ((c.upsertRecord now key size).setComplete f key).evictIfOver f
    ({ c' with metadataDirty := true }, .ok ())

/-- `register_incomplete_piece`: write the marker, then register a piece that is still being
filled. -/
def registerIncompletePiece (c : CacheManager) (now : ℕ) (f : Faults) (key : Str) (size : ℕ) :
    CacheManager × Except CacheError Unit :=
  if !isValidPieceKey key then (c, .error (.invalidKey key))
  else if f.createMarker then (c, .error (.createMarkerFailed key))
  else
    let marked := { c with cacheDir := c.cacheDir.createMarker key }
    if f.syncMarker then (marked, .error (.syncMarkerFailed key))
    else
      let c' := ((marked.upsertRecord now key size).setIncomplete key).evictIfOver f
      ({ c' with metadataDirty := true }, .ok ())

lemma addPiece_cases (c : CacheManager) (now : ℕ) (f : Faults) (key : Str) (size : ℕ) :
    (c.addPiece now f key size).1 = c ∨
      isValidPieceKey key = true ∧ (c.addPiece now f key size).1 =
        { ((c.upsertRecord now key size).setComplete f key).evictIfOver f with
          metadataDirty := true } := by
  unfold addPiece
  by_cases hvalid : isValidPieceKey key = true
  · exact .inr ⟨hvalid, by simp [hvalid]⟩
  · exact .inl (by simp [hvalid])

lemma registerIncompletePiece_cases (c : CacheManager) (now : ℕ) (f : Faults) (key : Str)
    (size : ℕ) :
    (isValidPieceKey key = false ∨ f.createMarker = true) ∧
        (c.registerIncompletePiece now f key size).1 = c ∨
      f.syncMarker = true ∧ (c.registerIncompletePiece now f key size).1 =
        { c with cacheDir := c.cacheDir.createMarker key } ∨
      isValidPieceKey key = true ∧ f.createMarker = false ∧ f.syncMarker = false ∧
        (c.registerIncompletePiece now f key size).1 =
          { ((upsertRecord { c with cacheDir := c.cacheDir.createMarker key } now key
              size).setIncomplete key).evictIfOver f with metadataDirty := true } := by
  unfold registerIncompletePiece
  by_cases hvalid : isValidPieceKey key = true
  · cases hcreate : f.createMarker with
    | true => exact .inl ⟨.inr rfl, by simp [hvalid]⟩
    | false =>
      cases hsync : f.syncMarker with
      | true => exact .inr (.inl ⟨rfl, by simp [hvalid]⟩)
      | false => exact .inr (.inr ⟨hvalid, rfl, rfl, by simp [hvalid]⟩)
  · exact .inl ⟨.inl (by simpa using hvalid), by simp [hvalid]⟩

def deletePiece (c : CacheManager) (f : Faults) (key : Str) :
    CacheManager × Except CacheError Unit :=
  match c.removePiece f key with
  | .ok c' => (c', .ok ())
  | .error e => (c, .error e)

lemma deletePiece_cases (c : CacheManager) (f : Faults) (key : Str) :
    (c.deletePiece f key).1 = c ∨ c.removePiece f key = .ok (c.deletePiece f key).1 := by
  unfold deletePiece
  cases c.removePiece f key with
  | ok c' => exact .inr rfl
  | error e => exact .inl rfl

/-- The invariants that no removal of a piece, no marker and no counter breaks. -/
structure Kept (Inv : CacheManager → Prop) : Prop where
  removePiece : ∀ {c c' f key}, Inv c → c.removePiece f key = .ok c' → Inv c'
  counted : ∀ {c n}, Inv c → Inv { c with evictionCount := n }
  dirtied : ∀ {c}, Inv c → Inv { c with metadataDirty := true }
  marked : ∀ {c key}, Inv c → Inv { c with cacheDir := c.cacheDir.createMarker key }

namespace Kept

variable {Inv : CacheManager → Prop} (k : Kept Inv) (h : Inv c)
include k h

lemma evictLru (f : Faults) : Inv (c.evictLru f).1 :=
  evictLoop_preserves (fun _ _ _ hc _ => k.removePiece hc) (fun _ _ => k.counted) _ _ h

lemma registered (f : Faults) : Inv { c.evictIfOver f with metadataDirty := true } :=
  k.dirtied (evictIfOver_preserves (fun _ _ _ hc _ => k.removePiece hc) (fun _ _ => k.counted) h)

lemma deletePiece (f : Faults) (key : Str) : Inv (c.deletePiece f key).1 := by
  rcases deletePiece_cases c f key with heq | hrm
  · rwa [heq]
  · exact k.removePiece h hrm

lemma addPiece {now size : ℕ} {key : Str} (hset : isValidPieceKey key = true →
    Inv ((c.upsertRecord now key size).setComplete f key)) :
    Inv (c.addPiece now f key size).1 := by
  rcases addPiece_cases c now f key size with heq | ⟨hvalid, heq⟩
  · rwa [heq]
  · rw [heq]
    exact k.registered (hset hvalid) f

lemma registerIncompletePiece {now size : ℕ} {key : Str}
    (hset : isValidPieceKey key = true → f.createMarker = false → f.syncMarker = false →
      Inv ((upsertRecord { c with cacheDir := c.cacheDir.createMarker key } now key
        size).setIncomplete key)) :
    Inv (c.registerIncompletePiece now f key size).1 := by
  rcases registerIncompletePiece_cases c now f key size with
    ⟨-, heq⟩ | ⟨-, heq⟩ | ⟨hvalid, hcreate, hsync, heq⟩
  · rwa [heq]
  · rw [heq]
    exact k.marked h
  · rw [heq]
    exact k.registered (hset hvalid hcreate hsync) f

end Kept

def ofInfohash (infoHash key : Str) : Bool := (infoHash ++ [':']).isPrefixOf key

def dropInfohashState (c : CacheManager) (infoHash : Str) : CacheManager :=
  { c with
    currentSize := c.currentSize -
      (c.metadata.filter (ofInfohash infoHash)).total PieceMetadata.size % 2 ^ 64
    lru := c.lru.filter fun e => ofInfohash infoHash (ofLex e).2 = false
    metadata := c.metadata.filter fun key => !ofInfohash infoHash key
    verifiedPieceKeys := c.verifiedPieceKeys.filter fun key => ofInfohash infoHash key = false
    incompletePieceKeys := c.incompletePieceKeys.filter fun key =>
      ofInfohash infoHash key = false
    metadataDirty := true }

def markVerified (c : CacheManager) (key : Str) : CacheManager :=
  { c with
    verifiedPieceKeys := insert key c.verifiedPieceKeys
    incompletePieceKeys := c.incompletePieceKeys.erase key }

def unverifiedPieces (c : CacheManager) : Finset Str :=
  c.metadata.keys.filter fun key =>
    key ∉ c.verifiedPieceKeys ∧ key ∉ c.incompletePieceKeys

end CacheManager

end TorrentFs.Cache
