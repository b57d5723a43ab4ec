import TorrentFs.Lib.FinMap
import TorrentFs.Lib.Text
import TorrentFs.Lib.Word

/-!
# The piece scheduler

The scheduler keeps, for every torrent, the priority of each piece and the active readers that
want some of them. A reader is added with the gradient of its range under a fresh id and released
by that id; after each event the priorities are recomputed as the maximum over the gradients.

The gradients index the priority vector of their torrent. A gradient that is longer than that
vector is an index out of bounds and ends the thread: the operations that recompute return `none`
there.
-/

namespace TorrentFs.Download

open Text Word FinMap

structure FfiError where
  code : ℤ
  message : Str
deriving DecidableEq

structure TorrentInfo where
  infoHash : Except FfiError Str
  pieceLength : ℕ
  numPieces : ℕ
  totalSize : ℕ
  /-- The sizes of the files, when they can be listed. -/
  files : Option (List ℕ)

structure FilePieceInfo where
  firstPiece : ℤ
  numPieces : ℤ
  fileOffset : ℤ

structure PiecePriorityConfig where
  accessWindowMb : ℕ
  currentPriority : ℤ
  stepPriorities : Fin 4 → ℤ
  windowEdgePriority : ℤ
  restPriority : ℤ

def effectiveWindowPieces (accessWindowMb cacheCapacityBytes pieceLength : ℕ) : ℤ :=
  toI32 (min (accessWindowMb * 1024 * 1024) (cacheCapacityBytes - pieceLength) / pieceLength)

/-- `decide_priority`: the priority of one piece for a read of the pieces `curStart` to
`curEnd`. -/
def decidePriority (config : PiecePriorityConfig) (p curStart curEnd windowPieces : ℤ) : ℤ :=
  if p < curStart then 0
  else if p ≤ curEnd then config.currentPriority
  else
    let dist := wrapI32 (p - curEnd)
    if windowPieces < dist then config.restPriority
    else if h : 1 ≤ dist ∧ dist ≤ 4 then config.stepPriorities ⟨(dist - 1).toNat, by omega⟩
    else config.windowEdgePriority

structure ReaderGradient where
  id : ℕ
  gradient : List ℤ
deriving DecidableEq

@[ext]
structure PieceScheduler where
  elevated : FinMap Str (List ℤ)
  pieceLengths : FinMap Str ℤ
  config : PiecePriorityConfig
  readers : FinMap Str (List ReaderGradient)
  nextReadId : ℕ
  prefetch : FinMap Str (List ℤ)
  dirty : Finset Str
  cacheCapacityBytes : ℕ

def raiseTo : List ℤ → List ℤ → Option (List ℤ)
  | target, [] => some target
  | [], _ :: _ => none
  | t :: target, p :: gradient => (raiseTo target gradient).map fun rest => max t p :: rest

/-- `resolve_target`: the maximum over the readers, or the retained gradient without readers.
The inner `none` says that nothing is wanted. -/
def resolveTarget (readers : List ReaderGradient) (prefetch : Option (List ℤ)) (numPieces : ℕ) :
    Option (Option (List ℤ)) :=
  let zero := List.replicate numPieces 0
  match readers, prefetch with
  | [], none => some none
  | [], some gradient => (raiseTo zero gradient).map some
  | readers, _ => (readers.foldlM (fun target r => raiseTo target r.gradient) zero).map some

def clearReadyPiece (gradient : List ℤ) (piece : ℤ) : List ℤ × Bool :=
  let cleared := if 0 ≤ piece then gradient.set piece.toNat 0 else gradient
  (cleared, cleared.all (· == 0))

namespace PieceScheduler

def new (config : PiecePriorityConfig) (cacheCapacityBytes : ℕ) : PieceScheduler where
  elevated := .empty
  pieceLengths := .empty
  config := config
  readers := .empty
  nextReadId := 0
  prefetch := .empty
  dirty := ∅
  cacheCapacityBytes := cacheCapacityBytes

def initTorrent (s : PieceScheduler) (infoHash : Str) (numPieces pieceLength : ℤ) :
    PieceScheduler :=
  if numPieces ≤ 0 then s
  else
    { s with
      elevated := s.elevated.insert infoHash (List.replicate numPieces.toNat 0)
      pieceLengths := s.pieceLengths.insert infoHash pieceLength
      prefetch := s.prefetch.erase infoHash
      dirty := s.dirty.erase infoHash }

def gradientFor (s : PieceScheduler) (info : TorrentInfo) (fileIndex : ℤ) (offset size : ℕ)
    (answer : Except FfiError FilePieceInfo) : Option (List ℤ) :=
  let numPieces := toI32 info.numPieces
  if numPieces ≤ 0 ∨ info.pieceLength = 0 then none
  else
    match answer with
    | .error _ => none
    | .ok pieceInfo =>
      let fileOffset := toU64 pieceInfo.fileOffset
      let fileStart := wrapI32 pieceInfo.firstPiece
      let fileEnd := wrapI32 (fileStart + wrapI32 pieceInfo.numPieces - 1)
      if numPieces ≤ fileStart ∨ fileEnd < 0 then none
      else
        match info.files with
        | none => none
        | some files =>
          let absoluteOffset := addU64 fileOffset offset
          let fileSize := if 0 ≤ fileIndex then files.getD fileIndex.toNat 0 else 0
          let fileAbsEnd := addU64 fileOffset fileSize
          if fileAbsEnd ≤ absoluteOffset then none
          else
            let clamped := min size (fileAbsEnd - absoluteOffset) % 2 ^ 32
            let curStart := toI32 (absoluteOffset / info.pieceLength)
            let curEnd := if 0 < clamped then
              toI32 ((addU64 absoluteOffset clamped - 1) / info.pieceLength) else curStart
            let window := effectiveWindowPieces s.config.accessWindowMb s.cacheCapacityBytes
              info.pieceLength
            some ((List.range numPieces.toNat).map fun p : ℕ =>
              if max 0 fileStart ≤ p ∧ (p : ℤ) ≤ min (numPieces - 1) fileEnd then
                decidePriority s.config p curStart curEnd window
              else 0)

def readersOf (s : PieceScheduler) (infoHash : Str) : List ReaderGradient :=
  (s.readers.get infoHash).getD []

def idsOf (s : PieceScheduler) (infoHash : Str) : List ℕ :=
  (s.readersOf infoHash).map ReaderGradient.id

/-- The priorities `recompute` leaves: the target less the pieces the cache holds as complete.
Writing only the changed pieces gives the same vector. -/
def applyTarget (numPieces : ℕ) (isComplete : ℤ → Bool) : Option (List ℤ) → List ℤ
  | none => List.replicate numPieces 0
  | some target => target.mapIdx fun p prio => if isComplete p then 0 else prio

def recompute (s : PieceScheduler) (infoHash : Str) (isComplete : ℤ → Bool) :
    Option PieceScheduler :=
  match s.elevated.get infoHash with
  | none => some s
  | some priorities =>
    if priorities = [] then some s
    else
      let s := { s with dirty := s.dirty.erase infoHash }
      (resolveTarget (s.readersOf infoHash) (s.prefetch.get infoHash) priorities.length).map
        fun target =>
          { s with
            elevated := s.elevated.insert infoHash
              (applyTarget priorities.length isComplete target) }

/-- `reader_added`. The flag says whether the read got a gradient: without one it gets an id but
no entry. -/
def readerAdded (s : PieceScheduler) (info : TorrentInfo) (fileIndex : ℤ) (offset size : ℕ)
    (answer : Except FfiError FilePieceInfo) (isComplete : ℤ → Bool) :
    Option (PieceScheduler × Except FfiError (ℕ × Bool)) :=
  match info.infoHash with
  | .error e => some (s, .error e)
  | .ok infoHash =>
    let id := s.nextReadId
    let gradient := s.gradientFor info fileIndex offset size answer
    let s := { s with nextReadId := addU64 id 1 }
    match gradient with
    | none => some (s, .ok (id, false))
    | some gradient =>
      let s := { s with
        readers := s.readers.insert infoHash
          (s.readersOf infoHash ++ [ReaderGradient.mk id gradient]) }
      (s.recompute infoHash isComplete).map fun s => (s, .ok (id, true))

/-- Keep the gradient of the last reader, less the pieces that are complete, as the retained
one. -/
def retain (s : PieceScheduler) (infoHash : Str) (gradient : List ℤ) (isComplete : ℤ → Bool) :
    PieceScheduler :=
  let wanted := gradient.mapIdx fun p prio => if isComplete p then 0 else prio
  if wanted.any (· != 0) then { s with prefetch := s.prefetch.insert infoHash wanted }
  else { s with prefetch := s.prefetch.erase infoHash }

def readerReleased (s : PieceScheduler) (infoHash : Str) (id : ℕ) (isComplete : ℤ → Bool) :
    Option PieceScheduler :=
  match s.readers.get infoHash with
  | none => s.recompute infoHash isComplete
  | some ranges =>
    let released := ranges.find? fun r => r.id == id
    let ranges := ranges.eraseP fun r => r.id == id
    let s := { s with readers := s.readers.insert infoHash ranges }
    let s := match ranges, released with
      | [], some r => s.retain infoHash r.gradient isComplete
      | _, _ => s
    s.recompute infoHash isComplete

def pieceReady (s : PieceScheduler) (infoHash : Str) (piece : ℤ) : PieceScheduler :=
  let s := match s.elevated.get infoHash with
    | some priorities =>
      if 0 ≤ piece then
        { s with elevated := s.elevated.insert infoHash (priorities.set piece.toNat 0) }
      else s
    | none => s
  match s.prefetch.get infoHash with
  | none => s
  | some gradient =>
    let (cleared, isEmpty) := clearReadyPiece gradient piece
    if isEmpty then { s with prefetch := s.prefetch.erase infoHash }
    else { s with prefetch := s.prefetch.insert infoHash cleared }

def markPrioritiesDirty (s : PieceScheduler) (infoHash : Str) : PieceScheduler :=
  if s.elevated.contains infoHash then { s with dirty := insert infoHash s.dirty } else s

def removeTorrent (s : PieceScheduler) (infoHash : Str) : PieceScheduler :=
  { s with
    elevated := s.elevated.erase infoHash
    pieceLengths := s.pieceLengths.erase infoHash
    readers := s.readers.erase infoHash
    prefetch := s.prefetch.erase infoHash
    dirty := s.dirty.erase infoHash }

/-! ### The parts of an event -/

def pushReader (s : PieceScheduler) (infoHash : Str) (gradient : List ℤ) : PieceScheduler :=
  { s with
    nextReadId := addU64 s.nextReadId 1
    readers := s.readers.insert infoHash
      (s.readersOf infoHash ++ [ReaderGradient.mk s.nextReadId gradient]) }

/-- The scheduler of `reader_released` before it recomputes: the reader is gone, and the gradient
of the last one is retained. -/
def dropReader (s : PieceScheduler) (infoHash : Str) (id : ℕ) (isComplete : ℤ → Bool) :
    PieceScheduler :=
  match s.readers.get infoHash with
  | none => s
  | some ranges =>
    let released := ranges.find? fun r => r.id == id
    let ranges := ranges.eraseP fun r => r.id == id
    let s := { s with readers := s.readers.insert infoHash ranges }
    match ranges, released with
    | [], some r => s.retain infoHash r.gradient isComplete
    | _, _ => s

def zeroPiece (s : PieceScheduler) (infoHash : Str) (piece : ℤ) : PieceScheduler :=
  match s.elevated.get infoHash with
  | some priorities =>
    if 0 ≤ piece then
      { s with elevated := s.elevated.insert infoHash (priorities.set piece.toNat 0) }
    else s
  | none => s

def clearPrefetch (s : PieceScheduler) (infoHash : Str) (piece : ℤ) : PieceScheduler :=
  match s.prefetch.get infoHash with
  | none => s
  | some gradient =>
    let (cleared, isEmpty) := clearReadyPiece gradient piece
    if isEmpty then { s with prefetch := s.prefetch.erase infoHash }
    else { s with prefetch := s.prefetch.insert infoHash cleared }

def kept (gradient : List ℤ) (held : ℤ → Bool) : Option (List ℤ) :=
  let wanted := gradient.mapIdx fun p prio => if held p then 0 else prio
  if wanted.any (· != 0) then some wanted else none

variable {s s' : PieceScheduler} {infoHash : Str} {isComplete : ℤ → Bool}

lemma readerAdded_eq {info : TorrentInfo} (hhash : info.infoHash = .ok infoHash) (fileIndex : ℤ)
    (offset size : ℕ) (answer : Except FfiError FilePieceInfo) (isComplete : ℤ → Bool) :
    s.readerAdded info fileIndex offset size answer isComplete =
      match s.gradientFor info fileIndex offset size answer with
      | none => some ({ s with nextReadId := addU64 s.nextReadId 1 }, .ok (s.nextReadId, false))
      | some gradient => ((s.pushReader infoHash gradient).recompute infoHash isComplete).map
          fun t => (t, .ok (s.nextReadId, true)) := by
  unfold readerAdded
  rw [hhash]
  rfl

section

variable (s infoHash)

lemma readerReleased_eq (id : ℕ) (isComplete : ℤ → Bool) : s.readerReleased infoHash id isComplete =
      (s.dropReader infoHash id isComplete).recompute infoHash isComplete := by
  unfold readerReleased dropReader
  cases s.readers.get infoHash <;> rfl

lemma pieceReady_eq (piece : ℤ) :
    s.pieceReady infoHash piece = (s.zeroPiece infoHash piece).clearPrefetch infoHash piece :=
  rfl

lemma readersOf_pushReader (gradient : List ℤ) (k : Str) :
    (s.pushReader infoHash gradient).readersOf k = if k = infoHash then
      s.readersOf k ++ [ReaderGradient.mk s.nextReadId gradient] else s.readersOf k := by
  by_cases hk : k = infoHash <;> simp [pushReader, readersOf, hk]

lemma retain_eq (gradient : List ℤ) (isComplete : ℤ → Bool) :
    ∃ prefetch, s.retain infoHash gradient isComplete = { s with prefetch := prefetch } ∧
      ∀ k, prefetch.get k =
        if k = infoHash then kept gradient isComplete else s.prefetch.get k := by
  unfold retain kept
  dsimp only
  split
  · exact ⟨_, rfl, fun k => by simp⟩
  · exact ⟨_, rfl, fun k => by simp⟩

lemma dropReader_eq (id : ℕ) (isComplete : ℤ → Bool) :
    ∃ readers prefetch, s.dropReader infoHash id isComplete =
        { s with readers := readers, prefetch := prefetch } ∧
      (∀ k, (readers.get k).getD [] = if k = infoHash then
        (s.readersOf k).eraseP (fun r => r.id == id) else s.readersOf k) ∧
      ((∃ r, s.readersOf infoHash = [r] ∧ r.id = id ∧ ∀ k, prefetch.get k =
          if k = infoHash then kept r.gradient isComplete else s.prefetch.get k) ∨
        (∀ r, s.readersOf infoHash = [r] → r.id ≠ id) ∧ prefetch = s.prefetch) := by
  unfold dropReader
  cases hget : s.readers.get infoHash with
  | none =>
    have hempty : s.readersOf infoHash = [] := by simp [readersOf, hget]
    refine ⟨s.readers, s.prefetch, rfl, fun k => ?_, .inr ⟨by simp [hempty], rfl⟩⟩
    by_cases hk : k = infoHash
    · simp [hk, hget, hempty]
    · rw [if_neg hk]
      rfl
  | some ranges =>
    have hranges : s.readersOf infoHash = ranges := by simp [readersOf, hget]
    have hreaders : ∀ k, ((s.readers.insert infoHash
        (ranges.eraseP fun r => r.id == id)).get k).getD [] =
        if k = infoHash then (s.readersOf k).eraseP (fun r => r.id == id)
        else s.readersOf k := by
      intro k
      by_cases hk : k = infoHash
      · simp [hk, hranges]
      · simp [hk, readersOf]
    dsimp only
    split
    · next r hnil hfind =>
      have hid : r.id = id := by simpa using List.find?_some hfind
      have hsingle : ranges = [r] := by
        rcases List.eraseP_eq_nil_iff.mp hnil with rfl | ⟨x, -, rfl⟩
        · cases hfind
        · rw [List.find?_singleton] at hfind
          obtain ⟨-, rfl⟩ := Option.ite_some_none_eq_some.mp hfind
          rfl
      obtain ⟨prefetch, heq, hprefetch⟩ := retain_eq { s with
        readers := s.readers.insert infoHash (ranges.eraseP fun r => r.id == id) }
        infoHash r.gradient isComplete
      exact ⟨_, prefetch, heq, hreaders, .inl ⟨r, hranges.trans hsingle, hid, hprefetch⟩⟩
    · next hnot =>
      refine ⟨_, s.prefetch, rfl, hreaders, .inr ⟨fun r hr hid => hnot r ?_ ?_, rfl⟩⟩
      · simp [← hranges, hr, hid]
      · simp [← hranges, hr, hid]

end

lemma clearReadyPiece_eq (gradient : List ℤ) (piece : ℤ) : clearReadyPiece gradient piece =
      (gradient.mapIdx fun p prio => if (p : ℤ) == piece then 0 else prio,
        (kept gradient (· == piece)).isNone) := by
  have hcleared : (if 0 ≤ piece then gradient.set piece.toNat 0 else gradient) =
      gradient.mapIdx fun p prio => if (p : ℤ) == piece then 0 else prio := by
    apply List.ext_getElem?
    intro p
    rw [List.getElem?_mapIdx]
    by_cases hp : (p : ℤ) = piece
    · subst hp
      rw [if_pos (Int.natCast_nonneg p), Int.toNat_natCast, List.getElem?_set_self']
      cases gradient[p]? <;> simp
    · split
      · rw [List.getElem?_set_ne (by omega)]
        cases gradient[p]? <;> simp [hp]
      · cases gradient[p]? <;> simp [hp]
  unfold clearReadyPiece kept
  dsimp only
  rw [hcleared]
  congr 1
  rw [apply_ite Option.isNone, List.all_eq_not_any_not]
  split <;> simp_all

lemma clearPrefetch_eq (s : PieceScheduler) (infoHash : Str) (piece : ℤ) :
    ∃ prefetch, s.clearPrefetch infoHash piece = { s with prefetch := prefetch } ∧
      ∀ k, prefetch.get k = if k = infoHash then
        (s.prefetch.get k).bind (kept · (· == piece)) else s.prefetch.get k := by
  unfold clearPrefetch
  cases hget : s.prefetch.get infoHash with
  | none =>
    refine ⟨s.prefetch, rfl, fun k => ?_⟩
    split
    · next hk => rw [hk, hget]; rfl
    · rfl
  | some gradient =>
    dsimp only
    rw [clearReadyPiece_eq]
    cases hkept : kept gradient (· == piece) with
    | none =>
      refine ⟨_, rfl, fun k => ?_⟩
      by_cases hk : k = infoHash <;> simp [hk, hget, hkept]
    | some left =>
      obtain rfl : _ = left := by
        exact (Option.ite_some_none_eq_some.mp hkept).2
      refine ⟨_, rfl, fun k => ?_⟩
      by_cases hk : k = infoHash <;> simp [hk, hget, hkept]

lemma zeroPiece_eq (s : PieceScheduler) (infoHash : Str) (piece : ℤ) :
    ∃ elevated, s.zeroPiece infoHash piece = { s with elevated := elevated } ∧
      ∀ k, elevated.get k = if k = infoHash ∧ 0 ≤ piece then
        (s.elevated.get k).map (·.set piece.toNat 0) else s.elevated.get k := by
  unfold zeroPiece
  cases hget : s.elevated.get infoHash with
  | none =>
    refine ⟨s.elevated, rfl, fun k => ?_⟩
    split
    · next hk => rw [hk.1, hget]; rfl
    · rfl
  | some priorities =>
    dsimp only
    split
    · next hpiece =>
      refine ⟨_, rfl, fun k => ?_⟩
      by_cases hk : k = infoHash <;> simp [hk, hget, hpiece]
    · next hpiece => exact ⟨s.elevated, rfl, fun k => by simp [hpiece]⟩

/-! ### Conditions on gradients -/

/-- Every gradient of a torrent, of a reader or retained, has a property. -/
structure Gradients (P : Str → List ℤ → Prop) (s : PieceScheduler) : Prop where
  readers : ∀ h, ∀ r ∈ s.readersOf h, P h r.gradient
  prefetch : ∀ h v, s.prefetch.get h = some v → P h v

/-- A property of gradients that stays when entries become zero. -/
def Clearable (P : Str → List ℤ → Prop) : Prop :=
  ∀ h v (held : ℤ → Bool), P h v → P h (v.mapIdx fun p prio => if held p then 0 else prio)

section Gradients

variable {P : Str → List ℤ → Prop}

lemma Clearable.kept (hP : Clearable P) {h : Str} {gradient v : List ℤ} {held : ℤ → Bool}
    (hgradient : P h gradient) (hv : kept gradient held = some v) : P h v := by
  obtain ⟨-, rfl⟩ := Option.ite_some_none_eq_some.mp hv
  exact hP h gradient held hgradient

lemma Gradients.congr (h : s.Gradients P) (hreaders : s'.readers = s.readers)
    (hprefetch : s'.prefetch = s.prefetch) : s'.Gradients P where
  readers k r hr := h.readers k r (by rwa [readersOf, hreaders] at hr)
  prefetch k v hv := h.prefetch k v (hprefetch ▸ hv)

lemma Gradients.pushReader (h : s.Gradients P) {gradient : List ℤ}
    (hgradient : P infoHash gradient) : (s.pushReader infoHash gradient).Gradients P where
  readers k r hr := by
    rw [readersOf_pushReader] at hr
    split at hr
    · next hk =>
      rcases List.mem_append.mp hr with hold | hnew
      · exact h.readers k r hold
      · obtain rfl := List.mem_singleton.mp hnew
        exact hk ▸ hgradient
    · exact h.readers k r hr
  prefetch := h.prefetch

lemma Gradients.dropReader (h : s.Gradients P) (hP : Clearable P) (infoHash : Str) (id : ℕ)
    (isComplete : ℤ → Bool) : (s.dropReader infoHash id isComplete).Gradients P := by
  obtain ⟨readers, prefetch, heq, hreaders, hprefetch⟩ := s.dropReader_eq infoHash id isComplete
  rw [heq]
  refine ⟨fun k r hr => h.readers k r ?_, fun k v hv => ?_⟩
  · rw [readersOf, hreaders] at hr
    split at hr
    · exact List.mem_of_mem_eraseP hr
    · exact hr
  · rcases hprefetch with ⟨r, hlast, -, hget⟩ | ⟨-, rfl⟩
    · dsimp only at hv
      rw [hget] at hv
      split at hv
      · next hk => exact hP.kept (hk ▸ h.readers infoHash r (by simp [hlast])) hv
      · exact h.prefetch k v hv
    · exact h.prefetch k v hv

lemma Gradients.pieceReady (h : s.Gradients P) (hP : Clearable P) (infoHash : Str)
    (piece : ℤ) : (s.pieceReady infoHash piece).Gradients P := by
  obtain ⟨elevated, hzero, -⟩ := s.zeroPiece_eq infoHash piece
  obtain ⟨prefetch, hclear, hget⟩ := (s.zeroPiece infoHash piece).clearPrefetch_eq infoHash piece
  rw [pieceReady_eq, hclear]
  rw [hzero] at hget ⊢
  refine ⟨h.readers, fun k v hv => ?_⟩
  rw [hget] at hv
  split at hv
  · obtain ⟨g, hg, hkept⟩ := Option.bind_eq_some_iff.mp hv
    exact hP.kept (h.prefetch k g hg) hkept
  · exact h.prefetch k v hv

lemma Gradients.initTorrent (h : s.Gradients P) (infoHash : Str) (numPieces pieceLength : ℤ) :
    (s.initTorrent infoHash numPieces pieceLength).Gradients P := by
  unfold PieceScheduler.initTorrent
  split
  · exact h
  · refine ⟨h.readers, fun k v hv => h.prefetch k v ?_⟩
    exact (Option.ite_none_left_eq_some.mp hv).2

lemma readersOf_removeTorrent (s : PieceScheduler) (infoHash k : Str) :
    (s.removeTorrent infoHash).readersOf k = if k = infoHash then [] else s.readersOf k := by
  by_cases hk : k = infoHash <;> simp [removeTorrent, readersOf, hk]

lemma Gradients.removeTorrent (h : s.Gradients P) (infoHash : Str) :
    (s.removeTorrent infoHash).Gradients P := by
  refine ⟨fun k r hr => ?_, fun k v hv => h.prefetch k v ?_⟩
  · rw [readersOf_removeTorrent] at hr
    split at hr
    · cases hr
    · exact h.readers k r hr
  · rw [PieceScheduler.removeTorrent, get_erase] at hv
    exact (Option.ite_none_left_eq_some.mp hv).2

end Gradients

/-! ### Gradients of the right length -/

/-- Every vector and every gradient of a torrent has as many entries as the torrent has
pieces. -/
structure Sized (pieceCount : Str → ℕ) (s : PieceScheduler) : Prop extends
    Gradients (fun h v => v.length = pieceCount h) s where
  elevated : ∀ h v, s.elevated.get h = some v → v.length = pieceCount h

variable {pieceCount : Str → ℕ}

lemma clearable_length : Clearable fun h v => v.length = pieceCount h :=
  fun h v held hv => by simpa using hv

lemma raiseTo_of_length : ∀ (target gradient : List ℤ), gradient.length = target.length →
    ∃ raised, raiseTo target gradient = some raised ∧ raised.length = target.length
  | target, [], _ => ⟨target, by cases target <;> rfl, rfl⟩
  | [], _ :: _, h => by simp at h
  | t :: target, p :: gradient, h => by
      obtain ⟨raised, hraise, hlength⟩ := raiseTo_of_length target gradient (by simpa using h)
      exact ⟨max t p :: raised, by simp [raiseTo, hraise], by simp [hlength]⟩

lemma foldlM_raiseTo (n : ℕ) (readers : List ReaderGradient) (target : List ℤ)
    (htarget : target.length = n) (hreaders : ∀ r ∈ readers, r.gradient.length = n) :
    ∃ raised, readers.foldlM (fun target r => raiseTo target r.gradient) target = some raised ∧
      raised.length = n := by
  induction readers generalizing target with
  | nil => exact ⟨target, rfl, htarget⟩
  | cons r readers ih =>
    obtain ⟨next, hraise, hnext⟩ := raiseTo_of_length target r.gradient
      ((hreaders r (by simp)).trans htarget.symm)
    obtain ⟨raised, hfold, hlength⟩ := ih next (hnext.trans htarget)
      fun r hr => hreaders r (by simp [hr])
    exact ⟨raised, by simp [hraise, hfold], hlength⟩

lemma resolveTarget_of_length {n : ℕ} {readers : List ReaderGradient}
    {prefetch : Option (List ℤ)} (hreaders : ∀ r ∈ readers, r.gradient.length = n)
    (hprefetch : ∀ v, prefetch = some v → v.length = n) :
    ∃ target, resolveTarget readers prefetch n = some target ∧
      ∀ v, target = some v → v.length = n := by
  cases readers with
  | nil =>
    cases prefetch with
    | none => exact ⟨none, rfl, nofun⟩
    | some gradient =>
      obtain ⟨raised, hraise, hlength⟩ := raiseTo_of_length (List.replicate n 0) gradient
        (by simpa using hprefetch gradient rfl)
      refine ⟨some raised, by simp [resolveTarget, hraise], ?_⟩
      rintro v ⟨⟩
      simpa using hlength
  | cons r readers =>
    obtain ⟨raised, hfold, hlength⟩ := foldlM_raiseTo n (r :: readers) (List.replicate n 0)
      (by simp) hreaders
    refine ⟨some raised, by simp [resolveTarget, hfold], ?_⟩
    rintro v ⟨⟩
    exact hlength

/-- What an operation that only touches the priorities leaves in place. -/
structure SameReaders (s s' : PieceScheduler) : Prop where
  readers : s'.readers = s.readers
  nextReadId : s'.nextReadId = s.nextReadId

lemma SameReaders.readersOf_eq (h : SameReaders s s') (infoHash : Str) :
    s'.readersOf infoHash = s.readersOf infoHash := by
  rw [readersOf, readersOf, h.readers]

lemma SameReaders.idsOf_eq (h : SameReaders s s') (infoHash : Str) :
    s'.idsOf infoHash = s.idsOf infoHash := by
  rw [idsOf, idsOf, h.readersOf_eq]

lemma recompute_spec (h : s.Sized pieceCount) (infoHash : Str) (isComplete : ℤ → Bool) :
    ∃ s', s.recompute infoHash isComplete = some s' ∧ s'.Sized pieceCount ∧ SameReaders s s' := by
  unfold recompute
  cases hget : s.elevated.get infoHash with
  | none => exact ⟨s, rfl, h, rfl, rfl⟩
  | some priorities =>
    by_cases hempty : priorities = []
    · exact ⟨s, by simp [hempty], h, rfl, rfl⟩
    · have hlength := h.elevated infoHash priorities hget
      obtain ⟨target, htarget, htargetLength⟩ :
          ∃ target, resolveTarget (s.readersOf infoHash) (s.prefetch.get infoHash)
              priorities.length = some target ∧
            ∀ v, target = some v → v.length = priorities.length :=
        resolveTarget_of_length
          (fun r hr => (h.readers infoHash r hr).trans hlength.symm)
          (fun v hv => (h.prefetch infoHash v hv).trans hlength.symm)
      have happlied : (applyTarget priorities.length isComplete target).length =
          pieceCount infoHash := by
        cases target with
        | none => simpa [applyTarget] using hlength
        | some v => simpa [applyTarget, htargetLength v rfl] using hlength
      refine ⟨{ s with
        dirty := s.dirty.erase infoHash
        elevated := s.elevated.insert infoHash
          (applyTarget priorities.length isComplete target) }, ?_,
        ⟨h.toGradients.congr rfl rfl, fun k v hv => ?_⟩, rfl, rfl⟩
      · simp only [hempty, if_false]
        exact Option.map_eq_some_iff.mpr ⟨target, htarget, rfl⟩
      · rw [get_insert] at hv
        split at hv
        · next hk =>
          cases hv
          exact hk ▸ happlied
        · exact h.elevated k v hv

lemma sameReaders_recompute (h : s.recompute infoHash isComplete = some s') : SameReaders s s' := by
  unfold recompute at h
  split at h
  · cases h
    exact ⟨rfl, rfl⟩
  · split at h
    · cases h
      exact ⟨rfl, rfl⟩
    · obtain ⟨target, -, rfl⟩ := Option.map_eq_some_iff.mp h
      exact ⟨rfl, rfl⟩

lemma Sized.of_recompute (h : s.Sized pieceCount)
    (hrecompute : s.recompute infoHash isComplete = some s') : s'.Sized pieceCount := by
  obtain ⟨_, hsome, hsized, -⟩ := recompute_spec h infoHash isComplete
  cases hrecompute.symm.trans hsome
  exact hsized

lemma length_gradientFor {info : TorrentInfo} {fileIndex : ℤ}
    {offset size : ℕ} {answer : Except FfiError FilePieceInfo} {gradient : List ℤ}
    (h : s.gradientFor info fileIndex offset size answer = some gradient) :
    gradient.length = (toI32 info.numPieces).toNat := by
  unfold gradientFor at h
  dsimp only at h
  repeat' split at h
  all_goals first
    | cases h
      simp
    | cases h

lemma readerAdded_spec (h : s.Sized pieceCount)
    {info : TorrentInfo} (hhash : info.infoHash = .ok infoHash)
    (hcount : (toI32 info.numPieces).toNat = pieceCount infoHash) (fileIndex : ℤ)
    (offset size : ℕ) (answer : Except FfiError FilePieceInfo) (isComplete : ℤ → Bool) :
    ∃ s' registered, s.readerAdded info fileIndex offset size answer isComplete =
        some (s', .ok (s.nextReadId, registered)) ∧ s'.Sized pieceCount ∧
      s'.nextReadId = addU64 s.nextReadId 1 ∧ ∀ k, s'.idsOf k =
        if registered = true ∧ k = infoHash then s.idsOf k ++ [s.nextReadId] else s.idsOf k := by
  rw [readerAdded_eq hhash]
  cases hgradient : s.gradientFor info fileIndex offset size answer with
  | none =>
    exact ⟨_, false, rfl, ⟨h.toGradients.congr rfl rfl, h.elevated⟩, rfl, fun k => by simp; rfl⟩
  | some gradient =>
    have hlength := (length_gradientFor hgradient).trans hcount
    obtain ⟨s', hrecompute, hsized, hsame⟩ := recompute_spec
      ⟨h.toGradients.pushReader hlength, h.elevated⟩ infoHash isComplete
    refine ⟨s', true, by simp [hrecompute], hsized, hsame.nextReadId, fun k => ?_⟩
    rw [hsame.idsOf_eq, idsOf, readersOf_pushReader]
    by_cases hk : k = infoHash <;> simp [hk, idsOf]

lemma map_id_eraseP (ranges : List ReaderGradient) (id : ℕ) :
    (ranges.eraseP fun r => r.id == id).map ReaderGradient.id =
      (ranges.map ReaderGradient.id).erase id := by
  induction ranges with
  | nil => rfl
  | cons r ranges ih => by_cases hr : r.id = id <;> simp [hr, ih]

lemma readerReleased_spec (h : s.Sized pieceCount)
    (infoHash : Str) (id : ℕ) (isComplete : ℤ → Bool) :
    ∃ s', s.readerReleased infoHash id isComplete = some s' ∧ s'.Sized pieceCount ∧
      s'.nextReadId = s.nextReadId ∧
      ∀ k, s'.idsOf k = if k = infoHash then (s.idsOf k).erase id else s.idsOf k := by
  have hdropped := h.toGradients.dropReader clearable_length infoHash id isComplete
  obtain ⟨readers, prefetch, heq, hreaders, -⟩ := s.dropReader_eq infoHash id isComplete
  rw [readerReleased_eq]
  rw [heq] at hdropped ⊢
  obtain ⟨s', hrecompute, hsized, hsame⟩ :=
    recompute_spec ⟨hdropped, h.elevated⟩ infoHash isComplete
  refine ⟨s', hrecompute, hsized, hsame.nextReadId, fun k => ?_⟩
  rw [hsame.idsOf_eq, idsOf, readersOf, hreaders]
  split
  · rw [map_id_eraseP, idsOf]
  · rfl

lemma SameReaders.trans {t u : PieceScheduler} (h : SameReaders s t) (h' : SameReaders t u) :
    SameReaders s u :=
  ⟨h'.readers.trans h.readers, h'.nextReadId.trans h.nextReadId⟩

lemma sameReaders_pieceReady (s : PieceScheduler) (infoHash : Str) (piece : ℤ) :
    SameReaders s (s.pieceReady infoHash piece) := by
  unfold pieceReady
  dsimp only
  repeat' split
  all_goals exact ⟨rfl, rfl⟩

lemma Sized.pieceReady (h : s.Sized pieceCount)
    (infoHash : Str) (piece : ℤ) : (s.pieceReady infoHash piece).Sized pieceCount := by
  refine ⟨h.toGradients.pieceReady clearable_length infoHash piece, fun k v hv => ?_⟩
  obtain ⟨elevated, hzero, hget⟩ := s.zeroPiece_eq infoHash piece
  obtain ⟨prefetch, hclear, -⟩ := (s.zeroPiece infoHash piece).clearPrefetch_eq infoHash piece
  rw [pieceReady_eq, hclear, hzero] at hv
  rw [hget] at hv
  split at hv
  · obtain ⟨priorities, hpriorities, rfl⟩ := Option.map_eq_some_iff.mp hv
    rw [List.length_set]
    exact h.elevated k priorities hpriorities
  · exact h.elevated k v hv

lemma initTorrent_spec (h : s.Sized pieceCount)
    {numPieces : ℤ} (hcount : numPieces.toNat = pieceCount infoHash) (pieceLength : ℤ) :
    (s.initTorrent infoHash numPieces pieceLength).Sized pieceCount ∧
      SameReaders s (s.initTorrent infoHash numPieces pieceLength) := by
  have hgradients := h.toGradients.initTorrent infoHash numPieces pieceLength
  unfold initTorrent at hgradients ⊢
  split
  · exact ⟨h, rfl, rfl⟩
  · next hpieces =>
    rw [if_neg hpieces] at hgradients
    refine ⟨⟨hgradients, fun k v hv => ?_⟩, rfl, rfl⟩
    rw [get_insert] at hv
    split at hv
    · next hk =>
      cases hv
      rw [List.length_replicate, hcount, hk]
    · exact h.elevated k v hv

lemma markPrioritiesDirty_spec (s : PieceScheduler) (infoHash : Str) :
    SameReaders s (s.markPrioritiesDirty infoHash) ∧
      ∀ pieceCount, s.Sized pieceCount → (s.markPrioritiesDirty infoHash).Sized pieceCount := by
  unfold markPrioritiesDirty
  split
  · exact ⟨⟨rfl, rfl⟩, fun _ h => ⟨h.toGradients.congr rfl rfl, h.elevated⟩⟩
  · exact ⟨⟨rfl, rfl⟩, fun _ h => h⟩

lemma removeTorrent_spec (h : s.Sized pieceCount) (infoHash : Str) :
    (s.removeTorrent infoHash).Sized pieceCount ∧
      ∀ k, (s.removeTorrent infoHash).idsOf k = if k = infoHash then [] else s.idsOf k := by
  refine ⟨⟨h.toGradients.removeTorrent infoHash, fun k v hv => h.elevated k v ?_⟩, fun k => ?_⟩
  · rw [removeTorrent, get_erase] at hv
    exact (Option.ite_none_left_eq_some.mp hv).2
  · rw [idsOf, readersOf_removeTorrent]
    split <;> rfl

end PieceScheduler

end TorrentFs.Download
