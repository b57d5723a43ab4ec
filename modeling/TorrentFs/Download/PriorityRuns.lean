import TorrentFs.Cache.Accounting
import TorrentFs.Download.Priorities

/-!
# Priorities over runs of the engine

The scheduler, the shared cache and libtorrent's own priorities as one system. The engine's
functions are its events: a torrent gets or loses its handle, a reader is added or released, a
finished piece is registered, a recheck starts or ends. The cache is shared with other threads,
whose calls come between those of the engine.

Every call that sets a priority succeeds. libtorrent changes priorities on its own only when a
recheck starts, to any values.
-/

namespace TorrentFs.Download

open Text Word Cache Option Function PieceScheduler Finset

def isPieceComplete (c : CacheManager) (infoHash : Str) (piece : ℤ) : Bool :=
  c.metadata.contains (pieceKey infoHash piece) &&
    !decide (pieceKey infoHash piece ∈ c.incompletePieceKeys)

/-- The scheduler and what it is compared with. -/
structure PriorityState where
  scheduler : PieceScheduler
  cache : CacheManager
  /-- The torrents with a handle. -/
  handles : Finset Str
  /-- The priorities libtorrent holds for the pieces of a torrent. -/
  given : Str → ℕ → ℤ
  /-- The rechecks in flight: the torrent, and the read that waits for it. -/
  rechecks : Finset (Str × ℕ)

/-- An event of the engine, or a call of another thread on the cache. A read that a shutdown aborts
releases its reader; the recheck it waited for stays in flight. -/
inductive PriorityEvent
  /-- `ensure_handle`, with what the new handle says of the torrent. -/
  | ensureHandle (infoHash : Str) (numPieces pieceLength : ℤ)
  | removeHandle (infoHash : Str)
  /-- The part of `begin_waiting` that adds the reader. -/
  | addReader (info : TorrentInfo) (fileIndex : ℤ) (offset size : ℕ)
      (answer : Except FfiError FilePieceInfo)
  | releaseReader (infoHash : Str) (id : ℕ)
  /-- `handle_piece_finished`, with the size of the piece file if there is one. -/
  | handlePieceFinished (infoHash : Str) (piece : ℤ) (fileSize : Option ℕ) (now : ℕ) (f : Faults)
  | registerPiece (infoHash : Str) (piece : ℤ) (expected : ℕ) (now : ℕ) (f : Faults)
  /-- A `force_recheck` that starts, with the priorities it leaves. -/
  | startRecheck (infoHash : Str) (read : ℕ) (left : ℕ → ℤ)
  /-- `finish_recheck` of a read with or without a reader. -/
  | finishRecheck (infoHash : Str) (read : ℕ) (hasReader : Bool)
  | cacheCall (op : CacheOp)

def PriorityEvent.reported : PriorityEvent → Option (Str × ℤ)
  | .handlePieceFinished infoHash piece _ _ _ => some (infoHash, piece)
  | .registerPiece infoHash piece _ _ _ => some (infoHash, piece)
  | _ => none

def defaultPriority : ℤ := 4

namespace PriorityState

def new (config : PiecePriorityConfig) (cacheCapacityBytes : ℕ) (cache : CacheManager)
    (given : Str → ℕ → ℤ) : PriorityState where
  scheduler := .new config cacheCapacityBytes
  cache := cache
  handles := ∅
  given := given
  rechecks := ∅

def calls (s : PriorityState) (infoHash : Str) (ws : List (Shadow.Write ℤ)) : Str → ℕ → ℤ :=
  Function.update s.given infoHash (Shadow.writes (s.given infoHash) ws)

def cacheAfter (s : PriorityState) : PriorityEvent → CacheManager
  | .handlePieceFinished infoHash piece fileSize now f =>
    -- `register_finished_piece` registers nothing for a file that is gone or empty
    match fileSize with
    | none | some 0 => s.cache
    | some size => (s.cache.addPiece now f (pieceKey infoHash piece) size).1
  | .registerPiece infoHash piece expected now f =>
    (s.cache.addPiece now f (pieceKey infoHash piece) expected).1
  | .cacheCall op => (s.cache.step op).getD s.cache
  | _ => s.cache

/-- `piece_ready`, for a torrent with a handle. Both callers make the call whether or not the
piece could be registered. -/
def pieceReady (s : PriorityState) (infoHash : Str) (piece : ℤ) : PriorityState :=
  if infoHash ∈ s.handles then
    { s with
      scheduler := s.scheduler.pieceReady infoHash piece
      given := s.calls infoHash (s.scheduler.pieceReadyWrites infoHash piece) }
  else s

def recompute (s : PriorityState) (infoHash : Str) : Option PriorityState :=
  if infoHash ∈ s.handles then
    (s.scheduler.recompute infoHash (isPieceComplete s.cache infoHash)).map fun scheduler =>
      { s with
        scheduler := scheduler
        given := s.calls infoHash (s.scheduler.recomputeWrites infoHash
          (isPieceComplete s.cache infoHash) (infoHash ∈ s.scheduler.dirty)) }
  else some s

def step (s : PriorityState) (e : PriorityEvent) : Option PriorityState :=
  match e with
  | .ensureHandle infoHash numPieces pieceLength =>
    if infoHash ∈ s.handles then some s
    else some
      { s with
        scheduler := s.scheduler.initTorrent infoHash numPieces pieceLength
        handles := insert infoHash s.handles
        given := Function.update s.given infoHash
          (Shadow.writes (fun _ => defaultPriority) [.all 0]) }
  | .removeHandle infoHash => some
      { s with
        scheduler := s.scheduler.removeTorrent infoHash
        handles := s.handles.erase infoHash
        rechecks := s.rechecks.filter fun recheck => recheck.1 ≠ infoHash }
  | .addReader info fileIndex offset size answer =>
    match info.infoHash with
    | .error _ => some s
    | .ok infoHash =>
      if infoHash ∈ s.handles then
        let isComplete := isPieceComplete s.cache infoHash
        (s.scheduler.readerAdded info fileIndex offset size answer isComplete).map
          fun added =>
            { s with
              scheduler := added.1
              given := s.calls infoHash (s.scheduler.readerAddedWrites info infoHash fileIndex
                offset size answer isComplete) }
      else some s
  | .releaseReader infoHash id =>
    if infoHash ∈ s.handles then
      let isComplete := isPieceComplete s.cache infoHash
      (s.scheduler.readerReleased infoHash id isComplete).map fun scheduler =>
        { s with
          scheduler := scheduler
          given := s.calls infoHash
            (s.scheduler.readerReleasedWrites infoHash id isComplete) }
    else some s
  | .handlePieceFinished infoHash piece _ _ _ =>
    some ({ s with cache := s.cacheAfter e }.pieceReady infoHash piece)
  | .registerPiece infoHash piece _ _ _ =>
    some ({ s with cache := s.cacheAfter e }.pieceReady infoHash piece)
  | .startRecheck infoHash read left =>
    if infoHash ∈ s.handles then
      some { s with
        given := Function.update s.given infoHash left
        rechecks := insert (infoHash, read) s.rechecks }
    else some s
  | .finishRecheck infoHash read hasReader =>
    let s := { s with
      scheduler := s.scheduler.markPrioritiesDirty infoHash
      rechecks := s.rechecks.erase (infoHash, read) }
    if hasReader then s.recompute infoHash else some s
  | .cacheCall op => (s.cache.step op).map fun cache => { s with cache := cache }

/-- The recorded priority of every piece is zero if the cache holds the piece, and what its
readers or the retained gradient ask for otherwise. -/
def Recorded (s : PriorityState) : Prop :=
  ∀ infoHash, s.scheduler.RecordedAt infoHash (isPieceComplete s.cache infoHash)

/-- The cache `c` differs from that of the state only as the scheduler expects: a piece reported as
finished is held, or no reader asks for it, and no other piece that is asked for came or went. -/
def KeptBy (s : PriorityState) (reported : Option (Str × ℤ)) (c : CacheManager) : Prop :=
  ∀ infoHash, ∀ p < (s.scheduler.recorded infoHash).length,
    if reported = some (infoHash, (p : ℤ)) then
      isPieceComplete c infoHash p = true ∨ s.scheduler.wantedByReaders infoHash p = 0
    else
      isPieceComplete c infoHash p = isPieceComplete s.cache infoHash p ∨
        s.scheduler.wanted infoHash p = 0

/-- The event changes what the cache holds only as the scheduler expects. -/
def Kept (s : PriorityState) (e : PriorityEvent) : Prop := s.KeptBy e.reported (s.cacheAfter e)

/-- A torrent without a handle has no vector and no readers. -/
def Handled (s : PriorityState) : Prop :=
  ∀ infoHash, infoHash ∉ s.handles →
    s.scheduler.recorded infoHash = [] ∧ s.scheduler.readersOf infoHash = []

def Idle (s : PriorityState) (infoHash : Str) : Prop := ∀ read, (infoHash, read) ∉ s.rechecks

/-- libtorrent has the recorded priorities of every torrent that is not marked dirty and not being
rechecked. -/
def Mirrored (s : PriorityState) : Prop :=
  ∀ infoHash, infoHash ∉ s.scheduler.dirty → s.Idle infoHash →
    Shadow.Mirrors (s.given infoHash) (s.scheduler.recorded infoHash)

/-! ### What an event does -/

/-- A change of one torrent's readers, before the priorities are computed again. -/
structure Prepares (s : PieceScheduler) (infoHash : Str) (t : PieceScheduler) : Prop where
  same : s.SameElsewhere infoHash t
  recorded : t.recorded infoHash = s.recorded infoHash
  dirty : t.dirty = s.dirty
  nonneg : s.Nonneg → t.Nonneg

/-- What an event does, by the piece it reports and the cache it leaves. -/
inductive Effect (s : PriorityState) : Option (Str × ℤ) → CacheManager → PriorityState → Prop
  | idle : Effect s none s.cache s
  | numbered (id : ℕ) :
      Effect s none s.cache { s with scheduler := { s.scheduler with nextReadId := id } }
  | started (infoHash : Str) (numPieces pieceLength : ℤ) (hnew : infoHash ∉ s.handles) :
      Effect s none s.cache { s with
        scheduler := s.scheduler.initTorrent infoHash numPieces pieceLength
        handles := insert infoHash s.handles
        given := Function.update s.given infoHash fun _ => 0 }
  | removed (infoHash : Str) :
      Effect s none s.cache { s with
        scheduler := s.scheduler.removeTorrent infoHash
        handles := s.handles.erase infoHash
        rechecks := s.rechecks.filter fun recheck => recheck.1 ≠ infoHash }
  | recomputed (infoHash : Str) (t : PieceScheduler) (s' : PriorityState)
      (hhandle : infoHash ∈ s.handles) (ht : Prepares s.scheduler infoHash t)
      (hs' : { s with scheduler := t }.recompute infoHash = some s') :
      Effect s none s.cache s'
  | reported (infoHash : Str) (piece : ℤ) (c : CacheManager) :
      Effect s (some (infoHash, piece)) c ({ s with cache := c }.pieceReady infoHash piece)
  | rechecked (infoHash : Str) (read : ℕ) (left : ℕ → ℤ) :
      Effect s none s.cache { s with
        given := Function.update s.given infoHash left
        rechecks := insert (infoHash, read) s.rechecks }
  | marked (infoHash : Str) (read : ℕ) (s' : PriorityState)
      (hs' : s' = { s with
          scheduler := s.scheduler.markPrioritiesDirty infoHash
          rechecks := s.rechecks.erase (infoHash, read) } ∨
        { s with
          scheduler := s.scheduler.markPrioritiesDirty infoHash
          rechecks := s.rechecks.erase (infoHash, read) }.recompute infoHash = some s') :
      Effect s none s.cache s'
  | cached (c : CacheManager) : Effect s none c { s with cache := c }

lemma prepares_pushReader (s : PieceScheduler) (infoHash : Str) {gradient : List ℤ}
    (hgradient : s.config.Nonneg → ∀ x ∈ gradient, 0 ≤ x) :
    Prepares s infoHash (s.pushReader infoHash gradient) where
  same := sameElsewhere_pushReader s infoHash gradient
  recorded := rfl
  dirty := rfl
  nonneg h := ⟨h.toGradients.pushReader (hgradient h.config), h.config⟩

lemma prepares_dropReader (s : PieceScheduler) (infoHash : Str) (id : ℕ)
    (isComplete : ℤ → Bool) : Prepares s infoHash (s.dropReader infoHash id isComplete) := by
  obtain ⟨hsame, helevated, hdirty⟩ := s.dropReader_keeps infoHash id isComplete
  exact ⟨hsame, by rw [PieceScheduler.recorded, helevated]; rfl, hdirty,
    fun h => h.dropReader infoHash id isComplete⟩

variable {s s' : PriorityState} {infoHash : Str} {e : PriorityEvent} {reported : Option (Str × ℤ)}
  {c : CacheManager}

lemma recompute_prepared {t scheduler : PieceScheduler}
    (hhandle : infoHash ∈ s.handles) (hdirty : t.dirty = s.scheduler.dirty)
    (h : t.recompute infoHash (isPieceComplete s.cache infoHash) = some scheduler) :
    { s with scheduler := t }.recompute infoHash = some
      { s with
        scheduler := scheduler
        given := s.calls infoHash (t.recomputeWrites infoHash (isPieceComplete s.cache infoHash)
          (infoHash ∈ s.scheduler.dirty)) } := by
  unfold recompute
  rw [if_pos hhandle]
  simp only [h, hdirty, map_some, calls]

lemma step_effect (h : s.step e = some s') : Effect s e.reported (s.cacheAfter e) s' := by
  cases e with
  | ensureHandle infoHash numPieces pieceLength =>
    simp only [step] at h
    split at h
    · cases h
      exact .idle
    · next hnew =>
      cases h
      exact .started infoHash numPieces pieceLength hnew
  | removeHandle infoHash =>
    cases h
    exact .removed infoHash
  | addReader info fileIndex offset size answer =>
    simp only [step] at h
    cases hhash : info.infoHash with
    | error e =>
      rw [hhash] at h
      cases h
      exact .idle
    | ok infoHash =>
      rw [hhash] at h
      dsimp only at h
      split at h
      · next hhandle =>
        obtain ⟨⟨scheduler, result⟩, hadded, rfl⟩ := Option.map_eq_some_iff.mp h
        rcases readerAdded_cases hhash hadded with
          ⟨hnone, rfl⟩ | ⟨gradient, hgradient, hrecompute⟩
        · have hcalls : s.calls infoHash (s.scheduler.readerAddedWrites info infoHash
              fileIndex offset size answer (isPieceComplete s.cache infoHash)) =
              s.given := by
            simp [calls, readerAddedWrites, hnone]
          rw [hcalls]
          exact .numbered _
        · refine .recomputed infoHash _ _ hhandle (prepares_pushReader _ infoHash
            fun hconfig => gradientFor_nonneg hconfig hgradient) ?_
          rw [recompute_prepared (t := s.scheduler.pushReader infoHash gradient) hhandle rfl
            hrecompute]
          simp only [readerAddedWrites, hgradient]
      · cases h
        exact .idle
  | releaseReader infoHash id =>
    simp only [step] at h
    split at h
    · next hhandle =>
      obtain ⟨scheduler, hreleased, rfl⟩ := Option.map_eq_some_iff.mp h
      rw [readerReleased_eq] at hreleased
      have hprepares := prepares_dropReader s.scheduler infoHash id
        (isPieceComplete s.cache infoHash)
      exact .recomputed infoHash _ _ hhandle hprepares
        (recompute_prepared hhandle hprepares.dirty hreleased)
    · cases h
      exact .idle
  | handlePieceFinished infoHash piece fileSize now f =>
    cases h
    exact .reported infoHash piece _
  | registerPiece infoHash piece expected now f =>
    cases h
    exact .reported infoHash piece _
  | startRecheck infoHash read left =>
    simp only [step] at h
    split at h
    · cases h
      exact .rechecked infoHash read left
    · cases h
      exact .idle
  | finishRecheck infoHash read hasReader =>
    simp only [step] at h
    split at h
    · exact .marked infoHash read s' (.inr h)
    · exact .marked infoHash read s' (.inl (Option.some.inj h).symm)
  | cacheCall op =>
    obtain ⟨cache, hop, rfl⟩ := Option.map_eq_some_iff.mp h
    have hcache : s.cacheAfter (.cacheCall op) = cache := by simp [cacheAfter, hop]
    rw [hcache]
    exact .cached cache

lemma recompute_effect (h : s.recompute infoHash = some s') :
    (infoHash ∉ s.handles ∧ s' = s) ∨
      infoHash ∈ s.handles ∧
      ∃ scheduler, s.scheduler.recompute infoHash (isPieceComplete s.cache infoHash) =
          some scheduler ∧
        s' = { s with
          scheduler := scheduler
          given := s.calls infoHash (s.scheduler.recomputeWrites infoHash
            (isPieceComplete s.cache infoHash) (infoHash ∈ s.scheduler.dirty)) } := by
  unfold recompute at h
  split at h
  · next hhandle =>
    obtain ⟨scheduler, hrecompute, hs'⟩ := Option.map_eq_some_iff.mp h
    exact .inr ⟨hhandle, scheduler, hrecompute, hs'.symm⟩
  · next hhandle => exact .inl ⟨hhandle, (Option.some.inj h).symm⟩

/-! ### Torrents and handles -/

lemma Handled.scheduler (h : s.Handled) {t : PieceScheduler} (hhandle : infoHash ∈ s.handles)
    (ht : s.scheduler.SameElsewhere infoHash t) : Handled { s with scheduler := t } := by
  intro k hk
  have hne : k ≠ infoHash := fun heq => hk (heq ▸ hhandle)
  rw [ht.recorded_eq hne, ht.readers k hne]
  exact h k hk

lemma Handled.recompute (h : s.Handled) (hs' : s.recompute infoHash = some s') : s'.Handled := by
  rcases recompute_effect hs' with ⟨-, rfl⟩ | ⟨hhandle, scheduler, hrecompute, rfl⟩
  · exact h
  · exact h.scheduler hhandle (sameElsewhere_recompute hrecompute)

lemma Handled.mark (h : s.Handled) (infoHash : Str) (rechecks : Finset (Str × ℕ)) :
    Handled { s with
      scheduler := s.scheduler.markPrioritiesDirty infoHash, rechecks := rechecks } := by
  obtain ⟨helevated, hreaders, -⟩ := s.scheduler.markPrioritiesDirty_keeps infoHash
  intro k hk
  rw [PieceScheduler.recorded, PieceScheduler.readersOf, helevated, hreaders]
  exact h k hk

lemma Handled.effect (h : s.Handled) (he : Effect s reported c s') : s'.Handled := by
  cases he with
  | idle | numbered | rechecked | cached => exact h
  | started infoHash numPieces pieceLength hnew =>
    intro k hk
    rw [mem_insert, not_or] at hk
    have hsame := s.scheduler.sameElsewhere_initTorrent infoHash numPieces pieceLength
    rw [hsame.recorded_eq hk.1, hsame.readers k hk.1]
    exact h k hk.2
  | removed infoHash =>
    intro k hk
    by_cases hne : k = infoHash
    · subst hne
      simp [PieceScheduler.removeTorrent, PieceScheduler.recorded, PieceScheduler.readersOf]
    · have hsame := s.scheduler.sameElsewhere_removeTorrent infoHash
      rw [hsame.recorded_eq hne, hsame.readers k hne]
      exact h k fun hmem => hk (Finset.mem_erase.mpr ⟨hne, hmem⟩)
  | recomputed infoHash t _ hhandle ht hs' => exact (h.scheduler hhandle ht.same).recompute hs'
  | reported infoHash piece =>
    unfold pieceReady
    split
    · next hhandle =>
      exact h.scheduler hhandle (sameElsewhere_pieceReady _ infoHash piece)
    · exact h
  | marked infoHash read _ hs' =>
    rcases hs' with rfl | hs'
    · exact h.mark infoHash _
    · exact (h.mark infoHash _).recompute hs'

lemma handled_new (config : PiecePriorityConfig) (cacheCapacityBytes : ℕ)
    (cache : CacheManager) (given : Str → ℕ → ℤ) :
    (new config cacheCapacityBytes cache given).Handled :=
  fun _ _ => ⟨rfl, rfl⟩

lemma nonneg_recompute (h : s.scheduler.Nonneg)
    (hs' : s.recompute infoHash = some s') : s'.scheduler.Nonneg := by
  rcases recompute_effect hs' with ⟨-, rfl⟩ | ⟨-, scheduler, hrecompute, rfl⟩
  · exact h
  · exact h.recompute hrecompute

lemma nonneg_effect
    (h : s.scheduler.Nonneg) (he : Effect s reported c s') : s'.scheduler.Nonneg := by
  cases he with
  | idle | rechecked | cached => exact h
  | numbered id => exact h.congr rfl rfl rfl
  | started infoHash numPieces pieceLength => exact h.initTorrent infoHash numPieces pieceLength
  | removed infoHash => exact h.removeTorrent infoHash
  | recomputed infoHash t _ _ ht hs' =>
    exact nonneg_recompute (s := { s with scheduler := t }) (ht.nonneg h) hs'
  | reported infoHash piece =>
    unfold pieceReady
    split
    · exact h.pieceReady infoHash piece
    · exact h
  | marked infoHash read _ hs' =>
    obtain ⟨-, hreaders, hprefetch, hconfig⟩ := s.scheduler.markPrioritiesDirty_keeps infoHash
    have hmarked := h.congr hreaders hprefetch hconfig
    rcases hs' with rfl | hs'
    · exact hmarked
    · exact nonneg_recompute (s := { s with
        scheduler := s.scheduler.markPrioritiesDirty infoHash
        rechecks := s.rechecks.erase (infoHash, read) }) hmarked hs'

lemma nonneg_new {config : PiecePriorityConfig} (hconfig : config.Nonneg)
    (cacheCapacityBytes : ℕ) : (PieceScheduler.new config cacheCapacityBytes).Nonneg := by
  refine ⟨⟨fun _ _ hr => ?_, fun _ _ hg => ?_⟩, hconfig⟩
  · simp [PieceScheduler.new, PieceScheduler.readersOf] at hr
  · simp [PieceScheduler.new] at hg

/-! ### The recorded priorities -/

lemma keptBy_self (s : PriorityState) : s.KeptBy none s.cache := by
  intro infoHash p _
  rw [if_neg nofun]
  exact .inl rfl

lemma Recorded.recompute (hnonneg : s.scheduler.Nonneg)
    (hhandled : s.Handled) (hothers : ∀ k, k ≠ infoHash →
      s.scheduler.RecordedAt k (isPieceComplete s.cache k))
    (hs' : s.recompute infoHash = some s') : s'.Recorded := by
  intro k
  rcases recompute_effect hs' with ⟨hnone, rfl⟩ | ⟨-, scheduler, hrecompute, rfl⟩
  · by_cases hk : k = infoHash
    · subst hk
      intro p hp
      simp [(hhandled k hnone).1] at hp
    · exact hothers k hk
  · by_cases hk : k = infoHash
    · subst hk
      exact recordedAt_of_recompute hnonneg hrecompute
    · exact ((sameElsewhere_recompute hrecompute).recordedAt_iff hk _).mpr
        (hothers k hk)

theorem recorded_effect_iff (hhandled : s.Handled) (hnonneg : s.scheduler.Nonneg)
    (hrecorded : s.Recorded) (he : Effect s reported c s') : s'.Recorded ↔ s.KeptBy reported c := by
  cases he with
  | idle | numbered | rechecked => exact iff_of_true hrecorded s.keptBy_self
  | started infoHash numPieces pieceLength hnew =>
    refine iff_of_true (fun k => ?_) s.keptBy_self
    by_cases hk : k = infoHash
    · subst hk
      obtain ⟨hvector, hreaders⟩ := hhandled k hnew
      exact recordedAt_initTorrent hvector hreaders numPieces pieceLength _
    · exact ((s.scheduler.sameElsewhere_initTorrent infoHash numPieces
        pieceLength).recordedAt_iff hk _).mpr (hrecorded k)
  | removed infoHash =>
    refine iff_of_true (fun k => ?_) s.keptBy_self
    by_cases hk : k = infoHash
    · intro p hp
      simp [PieceScheduler.removeTorrent, PieceScheduler.recorded, hk] at hp
    · exact ((s.scheduler.sameElsewhere_removeTorrent infoHash).recordedAt_iff hk _).mpr
        (hrecorded k)
  | recomputed infoHash t _ hhandle ht hs' =>
    refine iff_of_true ?_ s.keptBy_self
    exact Recorded.recompute (s := { s with scheduler := t }) (ht.nonneg hnonneg)
      (hhandled.scheduler hhandle ht.same)
      (fun k hk => (ht.same.recordedAt_iff hk _).mpr (hrecorded k)) hs'
  | reported infoHash piece =>
    -- torrent by torrent: the reported piece is of one of them, the others only see the cache
    refine forall_congr' fun k => ?_
    by_cases hk : k = infoHash
    · subst hk
      by_cases hhandle : k ∈ s.handles
      · rw [pieceReady, if_pos hhandle]
        rw [recordedAt_pieceReady_iff (hrecorded k) piece]
        refine forall₂_congr fun p _ => ?_
        simp only [Option.some.injEq, Prod.mk.injEq, true_and, eq_comm]
      · have hempty := (hhandled k hhandle).1
        rw [pieceReady, if_neg hhandle]
        refine iff_of_true (fun p hp => ?_) fun p hp => ?_
        · simp [hempty] at hp
        · simp [hempty] at hp
    · have hscheduler : ({ s with cache := c }.pieceReady infoHash piece).scheduler.RecordedAt k
          (isPieceComplete c k) ↔ s.scheduler.RecordedAt k (isPieceComplete c k) := by
        unfold pieceReady
        split
        · exact (s.scheduler.sameElsewhere_pieceReady infoHash piece).recordedAt_iff hk _
        · rfl
      have hcache : ({ s with cache := c }.pieceReady infoHash piece).cache = c := by
        unfold pieceReady
        split <;> rfl
      rw [hcache, hscheduler, recordedAt_congr_iff (hrecorded k)]
      refine forall₂_congr fun p _ => ?_
      rw [if_neg]
      rintro ⟨⟩
      exact hk rfl
  | marked infoHash read _ hs' =>
    refine iff_of_true ?_ s.keptBy_self
    obtain ⟨helevated, hreaders, hprefetch, hconfig⟩ :=
      s.scheduler.markPrioritiesDirty_keeps infoHash
    have hmarked : ∀ k, (s.scheduler.markPrioritiesDirty infoHash).RecordedAt k
        (isPieceComplete s.cache k) := by
      intro k
      simp only [PieceScheduler.RecordedAt, PieceScheduler.getPiecePriority,
        PieceScheduler.recorded, PieceScheduler.wanted, PieceScheduler.readersOf, helevated,
        hreaders, hprefetch]
      exact hrecorded k
    rcases hs' with rfl | hs'
    · exact hmarked
    · exact Recorded.recompute (hnonneg.congr hreaders hprefetch hconfig)
        (hhandled.mark infoHash _) (fun k _ => hmarked k) hs'
  | cached =>
    refine forall_congr' fun k => ?_
    rw [recordedAt_congr_iff (hrecorded k)]
    refine forall₂_congr fun p _ => ?_
    rw [if_neg (by simp)]

lemma recorded_new (config : PiecePriorityConfig) (cacheCapacityBytes : ℕ)
    (cache : CacheManager) (given : Str → ℕ → ℤ) :
    (new config cacheCapacityBytes cache given).Recorded := by
  intro infoHash p hp
  simp [new, PieceScheduler.new, PieceScheduler.recorded] at hp

instance decidableKept (s : PriorityState) (e : PriorityEvent) : Decidable (s.Kept e) :=
  decidable_of_iff (∀ infoHash ∈ s.scheduler.elevated.keys,
      ∀ p < (s.scheduler.recorded infoHash).length,
        if e.reported = some (infoHash, (p : ℤ)) then
          isPieceComplete (s.cacheAfter e) infoHash p = true ∨
            s.scheduler.wantedByReaders infoHash p = 0
        else
          isPieceComplete (s.cacheAfter e) infoHash p = isPieceComplete s.cache infoHash p ∨
            s.scheduler.wanted infoHash p = 0) <| by
    refine forall_congr' fun infoHash => ⟨fun h p hp => h ?_ p hp, fun h _ => h⟩
    -- a torrent with a piece has a vector
    by_contra hnone
    rw [FinMap.mem_keys, Option.not_isSome_iff_eq_none] at hnone
    simp [PieceScheduler.recorded, hnone] at hp

/-- What a run of events that are `Kept` keeps. -/
structure Right (s : PriorityState) : Prop where
  handled : s.Handled
  nonneg : s.scheduler.Nonneg
  recorded : s.Recorded

lemma Right.step_iff (h : s.Right) (hstep : s.step e = some s') : s'.Recorded ↔ s.Kept e :=
  recorded_effect_iff h.handled h.nonneg h.recorded (step_effect hstep)

lemma Right.step (h : s.Right) (hkept : s.Kept e) (hstep : s.step e = some s') : s'.Right where
  handled := h.handled.effect (step_effect hstep)
  nonneg := nonneg_effect h.nonneg (step_effect hstep)
  recorded := (h.step_iff hstep).mpr hkept

/-- After every run of events that are `Kept`, every recorded priority is the one asked for: zero
for a piece the cache holds, otherwise the maximum over the readers, the retained gradient without
readers, or zero. The next event leaves it so exactly if it is `Kept` as well. -/
theorem recorded_of_kept_run {config : PiecePriorityConfig} (hconfig : config.Nonneg)
    {cacheCapacityBytes : ℕ} {cache : CacheManager} {given : Str → ℕ → ℤ}
    {events : List PriorityEvent} {s : PriorityState}
    (hkept : Run.Along step Kept (new config cacheCapacityBytes cache given) events)
    (hrun : Run.runFrom step (new config cacheCapacityBytes cache given) events = some s) :
    s.Recorded ∧ ∀ e s', s.step e = some s' → (s'.Recorded ↔ s.Kept e) := by
  have hstart : (new config cacheCapacityBytes cache given).Right :=
    ⟨handled_new config cacheCapacityBytes cache given, nonneg_new hconfig cacheCapacityBytes,
      recorded_new config cacheCapacityBytes cache given⟩
  have hright : s.Right := Run.invariant_of_run_along
    (fun _ _ _ hs hkept hstep => hs.step hkept hstep) hstart hkept hrun
  exact ⟨hright.recorded, fun _ _ hstep => hright.step_iff hstep⟩

def twoPieces : TorrentInfo := ⟨.ok sampleHash, 4, 2, 8, some [8]⟩

def defaultPriorities : PiecePriorityConfig where
  accessWindowMb := 4096
  currentPriority := 7
  stepPriorities := [6, 5, 4, 3].get
  windowEdgePriority := 1
  restPriority := 0

def readBoth : List PriorityEvent :=
  [.ensureHandle sampleHash 2 4, .addReader twoPieces 0 0 8 (.ok ⟨0, 2, 0⟩)]

def empty (bytes : ℕ) : PriorityState :=
  new defaultPriorities bytes (.fresh ⟨none, none⟩ bytes) fun _ _ => 0

theorem recorded_after_first_piece : Run.Along step Kept (empty 100)
        (readBoth ++ [.handlePieceFinished sampleHash 0 (some 4) 1 .none]) ∧
      ∃ s, Run.runFrom step (empty 100)
          (readBoth ++ [.handlePieceFinished sampleHash 0 (some 4) 1 .none]) = some s ∧
        s.Recorded ∧ s.scheduler.recorded sampleHash = [0, 7] := by
  have hkept : Run.Along step Kept (empty 100)
      (readBoth ++ [.handlePieceFinished sampleHash 0 (some 4) 1 .none]) := by decide +kernel
  obtain ⟨s, hs, hvector⟩ : ∃ s, Run.runFrom step (empty 100)
      (readBoth ++ [.handlePieceFinished sampleHash 0 (some 4) 1 .none]) = some s ∧
      s.scheduler.recorded sampleHash = [0, 7] := by decide +kernel
  exact ⟨hkept, s, hs,
    (recorded_of_kept_run ⟨by decide, by decide, by decide, by decide⟩ hkept hs).1, hvector⟩

/-- With room for one piece, the second piece that arrives evicts the first one. Its priority stays
zero while the reader asks for it with priority seven. -/
theorem evicted_piece_is_not_raised : ∃ s, Run.runFrom step (empty 4)
        (readBoth ++ [.handlePieceFinished sampleHash 0 (some 4) 1 .none,
          .handlePieceFinished sampleHash 1 (some 4) 2 .none]) = some s ∧
      isPieceComplete s.cache sampleHash 0 = false ∧ s.scheduler.wanted sampleHash 0 = 7 ∧
      s.scheduler.getPiecePriority sampleHash 0 = 0 := by
  decide +kernel

/-! ### The priorities libtorrent has -/

lemma Mirrored.at_of_same (h : s.Mirrored) {k : Str}
    (hsame : s.scheduler.SameElsewhere infoHash s'.scheduler) (hk : k ≠ infoHash)
    (hgiven : s'.given k = s.given k) (hidle : s'.Idle k → s.Idle k)
    (hclean : k ∉ s'.scheduler.dirty) (hquiet : s'.Idle k) :
    Shadow.Mirrors (s'.given k) (s'.scheduler.recorded k) := by
  rw [hgiven, hsame.recorded_eq hk]
  exact h k (fun hdirty => hclean ((hsame.dirty k hk).mpr hdirty)) (hidle hquiet)

lemma mirrors_empty {given : ℕ → ℤ} {v : List ℤ} (h : v = []) : Shadow.Mirrors given v := by
  intro p a hp
  simp [h] at hp

lemma Mirrored.recompute (h : s.Mirrored) (hs' : s.recompute infoHash = some s') : s'.Mirrored := by
  rcases recompute_effect hs' with ⟨-, rfl⟩ | ⟨-, scheduler, hrecompute, rfl⟩
  · exact h
  · intro k hclean hquiet
    by_cases hk : k = infoHash
    · -- the marked torrent is written in full, the others were mirrored before
      subst hk
      simp only [calls, update_self]
      apply mirrors_recompute hrecompute
      by_cases hdirty : k ∈ s.scheduler.dirty
      · exact .inl (decide_eq_true hdirty)
      · exact .inr (h k hdirty hquiet)
    · exact h.at_of_same (sameElsewhere_recompute hrecompute) hk
        (update_of_ne hk _ _) id hclean hquiet

lemma Mirrored.mark (h : s.Mirrored) (infoHash : Str) (read : ℕ) :
    Mirrored { s with
      scheduler := s.scheduler.markPrioritiesDirty infoHash
      rechecks := s.rechecks.erase (infoHash, read) } := by
  intro k hclean hquiet
  obtain ⟨helevated, -⟩ := s.scheduler.markPrioritiesDirty_keeps infoHash
  have hrecorded : (s.scheduler.markPrioritiesDirty infoHash).recorded k =
      s.scheduler.recorded k := by
    rw [PieceScheduler.recorded, helevated]
    rfl
  rw [mem_dirty_markPrioritiesDirty, not_or] at hclean
  rw [hrecorded]
  by_cases hk : k = infoHash
  · -- it is not marked, so it has no vector
    subst hk
    have hnone : s.scheduler.elevated.get k = none := by
      have hcontains : s.scheduler.elevated.contains k ≠ true := fun h => hclean.2 ⟨rfl, h⟩
      simpa [FinMap.contains] using hcontains
    exact mirrors_empty (by rw [PieceScheduler.recorded, hnone]; rfl)
  · exact h k hclean.1 fun r hr => hquiet r
      (Finset.mem_erase.mpr ⟨fun heq => hk (congrArg Prod.fst heq), hr⟩)

lemma Mirrored.effect
    (h : s.Mirrored) (hhandled : s.Handled) (he : Effect s reported c s') : s'.Mirrored := by
  cases he with
  | idle | numbered | cached => exact h
  | started infoHash numPieces pieceLength hnew =>
    intro k hclean hquiet
    by_cases hk : k = infoHash
    · subst hk
      simp only [update_self]
      unfold initTorrent
      split
      · exact mirrors_empty (hhandled k hnew).1
      · simp only [PieceScheduler.recorded, FinMap.get_insert_self, getD_some]
        exact Shadow.mirrors_replicate _ 0
    · exact h.at_of_same (s.scheduler.sameElsewhere_initTorrent infoHash numPieces pieceLength)
        hk (update_of_ne hk _ _) id hclean hquiet
  | removed infoHash =>
    intro k hclean hquiet
    by_cases hk : k = infoHash
    · apply mirrors_empty
      simp [PieceScheduler.removeTorrent, PieceScheduler.recorded, hk]
    · refine h.at_of_same (s.scheduler.sameElsewhere_removeTorrent infoHash) hk rfl
        (fun hidle read hmem => hidle read ?_) hclean hquiet
      exact Finset.mem_filter.mpr ⟨hmem, hk⟩
  | recomputed infoHash t _ _ ht hs' =>
    have hprepared : Mirrored { s with scheduler := t } := by
      intro k hclean hquiet
      rw [ht.dirty] at hclean
      have hrecorded : t.recorded k = s.scheduler.recorded k := by
        by_cases hk : k = infoHash
        · exact hk ▸ ht.recorded
        · exact ht.same.recorded_eq hk
      rw [hrecorded]
      exact h k hclean hquiet
    exact hprepared.recompute hs'
  | reported infoHash piece =>
    unfold pieceReady
    split
    · intro k hclean hquiet
      have hsame := s.scheduler.sameElsewhere_pieceReady infoHash piece
      by_cases hk : k = infoHash
      · subst hk
        obtain ⟨-, -, hdirty, -⟩ := s.scheduler.pieceReady_frame k piece
        simp only [calls, update_self]
        exact mirrors_pieceReady (h k (hdirty ▸ hclean) hquiet) piece
      · exact h.at_of_same hsame hk (update_of_ne hk _ _) id hclean hquiet
    · exact h
  | rechecked infoHash read left =>
    intro k hclean hquiet
    have hk : k ≠ infoHash := by
      rintro rfl
      exact hquiet read (mem_insert_self _ _)
    simp only [update_of_ne hk]
    exact h k hclean fun r hr => hquiet r (mem_insert_of_mem hr)
  | marked infoHash read _ hs' =>
    rcases hs' with rfl | hs'
    · exact h.mark infoHash read
    · exact (h.mark infoHash read).recompute hs'

/-- What every run keeps of the priorities libtorrent has. -/
structure Synced (s : PriorityState) : Prop where
  handled : s.Handled
  mirrored : s.Mirrored

/-- After every run, libtorrent has the recorded priority of every piece of a torrent that is not
marked dirty and has no recheck in flight. A recompute that leaves out the unchanged pieces then
has the effect of one that writes them all. -/
theorem given_eq_recorded_of_run {config : PiecePriorityConfig} {cacheCapacityBytes : ℕ}
    {cache : CacheManager} {given : Str → ℕ → ℤ} {events : List PriorityEvent} {s : PriorityState}
    (hrun : Run.runFrom step (new config cacheCapacityBytes cache given) events = some s)
    {infoHash : Str} (hclean : infoHash ∉ s.scheduler.dirty) (hidle : s.Idle infoHash) :
    (∀ p < (s.scheduler.recorded infoHash).length,
      s.given infoHash p = s.scheduler.getPiecePriority infoHash p) ∧
    ∀ (t : PieceScheduler) (isComplete : ℤ → Bool),
      t.recorded infoHash = s.scheduler.recorded infoHash →
      Shadow.writes (s.given infoHash) (t.recomputeWrites infoHash isComplete false) =
        Shadow.writes (s.given infoHash) (t.recomputeWrites infoHash isComplete true) := by
  have hstart : (new config cacheCapacityBytes cache given).Synced :=
    ⟨handled_new config cacheCapacityBytes cache given, fun _ _ _ => mirrors_empty rfl⟩
  have hsynced : s.Synced := Run.invariant_of_run
    (fun _ _ _ hs hstep => ⟨hs.handled.effect (step_effect hstep),
      hs.mirrored.effect hs.handled (step_effect hstep)⟩) hstart hrun
  have hmirrors := hsynced.mirrored infoHash hclean hidle
  constructor
  · intro p hp
    rw [PieceScheduler.getPiecePriority_natCast, List.getD_eq_getElem?_getD,
      List.getElem?_eq_getElem hp, Option.getD_some]
    exact hmirrors p _ (List.getElem?_eq_getElem hp)
  · intro t isComplete ht
    exact PieceScheduler.recomputeWrites_skip (ht ▸ hmirrors) isComplete

def recheckBoth : List PriorityEvent :=
  readBoth ++ [.startRecheck sampleHash 0 fun _ => 3, .finishRecheck sampleHash 0 true]

theorem given_after_recheck : ∃ s, Run.runFrom step (empty 100) recheckBoth = some s ∧
      s.given sampleHash 0 = s.scheduler.getPiecePriority sampleHash 0 ∧
      s.scheduler.getPiecePriority sampleHash 0 = 7 := by
  obtain ⟨s, hs, hclean, hrechecks, hpieces, hseven⟩ :
      ∃ s, Run.runFrom step (empty 100) recheckBoth = some s ∧ sampleHash ∉ s.scheduler.dirty ∧
        s.rechecks = ∅ ∧ 0 < (s.scheduler.recorded sampleHash).length ∧
        s.scheduler.getPiecePriority sampleHash 0 = 7 := by decide +kernel
  have hidle : s.Idle sampleHash := fun read hmem => by
    rw [hrechecks] at hmem
    exact absurd hmem (Finset.notMem_empty _)
  exact ⟨s, hs, (given_eq_recorded_of_run hs hclean hidle).1 0 hpieces, hseven⟩

end PriorityState

end TorrentFs.Download
