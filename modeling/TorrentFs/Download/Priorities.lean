import TorrentFs.Lib.Shadow
import TorrentFs.Download.Scheduler

/-!
# What the scheduler records and what it writes

The scheduler records a priority for every piece and gives the priorities to libtorrent by calls
that it cannot read back. The module says what the recorded priority of a piece is meant to be,
what each event of the scheduler does to it, and which calls the event makes.
-/

namespace TorrentFs.Download

open Text Word List Option FinMap

/-- No configured priority is negative. The configuration file may hold any `i32`. -/
structure PiecePriorityConfig.Nonneg (config : PiecePriorityConfig) : Prop where
  current : 0 ≤ config.currentPriority
  steps : ∀ i, 0 ≤ config.stepPriorities i
  windowEdge : 0 ≤ config.windowEdgePriority
  rest : 0 ≤ config.restPriority

lemma decidePriority_nonneg {config : PiecePriorityConfig} (h : config.Nonneg)
    (p curStart curEnd windowPieces : ℤ) :
    0 ≤ decidePriority config p curStart curEnd windowPieces := by
  unfold decidePriority
  dsimp only
  split
  · exact le_refl 0
  · split
    · exact h.current
    · split
      · exact h.rest
      · split
        · exact h.steps _
        · exact h.windowEdge

/-- The priority a piece is asked for: the maximum over the readers, or the retained gradient
without readers, or zero. -/
def wantedOf (readers : List ReaderGradient) (prefetch : Option (List ℤ)) (p : ℕ) : ℤ :=
  match readers with
  | [] => (prefetch.getD []).getD p 0
  | readers => ((readers.map fun r => r.gradient.getD p 0).max?).getD 0

/-! ### The target of a recompute -/

lemma getD_raiseTo : ∀ {target gradient raised : List ℤ}, raiseTo target gradient = some raised →
    ∀ p, 0 ≤ target.getD p 0 → raised.getD p 0 = max (target.getD p 0) (gradient.getD p 0)
  | target, [], raised, h, p, hp => by
      obtain rfl : target = raised := by cases target <;> simpa [raiseTo] using h
      exact (max_eq_left hp).symm
  | [], _ :: _, _, h, _, _ => by cases h
  | t :: target, g :: gradient, raised, h, p, hp => by
      obtain ⟨rest, hrest, rfl⟩ := Option.map_eq_some_iff.mp h
      cases p with
      | zero => rfl
      | succ p => exact getD_raiseTo hrest p hp

lemma length_raiseTo : ∀ {target gradient raised : List ℤ},
    raiseTo target gradient = some raised → raised.length = target.length
  | target, [], raised, h => by
      obtain rfl : target = raised := by cases target <;> simpa [raiseTo] using h
      rfl
  | [], _ :: _, _, h => by cases h
  | t :: target, g :: gradient, raised, h => by
      obtain ⟨rest, hrest, rfl⟩ := Option.map_eq_some_iff.mp h
      simp [length_raiseTo hrest]

lemma foldlM_raiseTo_spec (readers : List ReaderGradient) {target raised : List ℤ}
    (h : readers.foldlM (fun target r => raiseTo target r.gradient) target = some raised) :
    raised.length = target.length ∧ ∀ p, 0 ≤ target.getD p 0 →
      raised.getD p 0 = (readers.map fun r => r.gradient.getD p 0).foldl max (target.getD p 0) := by
  induction readers generalizing target with
  | nil =>
    obtain rfl : target = raised := by simpa using h
    exact ⟨rfl, fun _ _ => rfl⟩
  | cons r readers ih =>
    obtain ⟨next, hnext, hrest⟩ := Option.bind_eq_some_iff.mp h
    obtain ⟨hlength, hentry⟩ := ih hrest
    refine ⟨hlength.trans (length_raiseTo hnext), fun p hp => ?_⟩
    have hraised := getD_raiseTo hnext p hp
    rw [map_cons, foldl_cons, ← hraised]
    exact hentry p (hraised ▸ le_max_of_le_left hp)

lemma getD_replicate_zero (n p : ℕ) : (List.replicate n (0 : ℤ)).getD p 0 = 0 := by
  rw [getD_eq_getElem?_getD, getElem?_replicate]
  split <;> rfl

lemma getD_nonneg {v : List ℤ} (h : ∀ x ∈ v, 0 ≤ x) (p : ℕ) : 0 ≤ v.getD p 0 := by
  rw [getD_eq_getElem?_getD]
  cases hp : v[p]? with
  | none => exact le_refl 0
  | some x => exact h x (mem_of_getElem? hp)

lemma applyTarget_spec {readers : List ReaderGradient} {prefetch : Option (List ℤ)} {n : ℕ}
    {target : Option (List ℤ)} (hreaders : ∀ r ∈ readers, ∀ x ∈ r.gradient, 0 ≤ x)
    (hprefetch : ∀ g, prefetch = some g → ∀ x ∈ g, 0 ≤ x)
    (htarget : resolveTarget readers prefetch n = some target) (isComplete : ℤ → Bool) :
    (PieceScheduler.applyTarget n isComplete target).length = n ∧
      ∀ p < n, (PieceScheduler.applyTarget n isComplete target).getD p 0 =
        if isComplete p then 0 else wantedOf readers prefetch p := by
  have hzero := getD_replicate_zero n
  -- all that is needed of a target vector are its length and its entries
  have hvector : ∀ v : List ℤ, v.length = n → (∀ p, v.getD p 0 = wantedOf readers prefetch p) →
      (PieceScheduler.applyTarget n isComplete (some v)).length = n ∧
        ∀ p < n, (PieceScheduler.applyTarget n isComplete (some v)).getD p 0 =
          if isComplete p then 0 else wantedOf readers prefetch p := by
    intro v hlength hentry
    refine ⟨by simpa [PieceScheduler.applyTarget] using hlength, fun p hp => ?_⟩
    have hget : v[p]? = some (v.getD p 0) := by
      rw [getD_eq_getElem?_getD, getElem?_eq_getElem (hlength ▸ hp)]
      rfl
    rw [PieceScheduler.applyTarget, getD_eq_getElem?_getD, getElem?_mapIdx, hget,
      hentry]
    rfl
  cases readers with
  | nil =>
    cases prefetch with
    | none =>
      obtain rfl : none = target := by simpa [resolveTarget] using htarget
      refine ⟨length_replicate, fun p _ => ?_⟩
      rw [PieceScheduler.applyTarget, hzero]
      simp [wantedOf]
    | some gradient =>
      obtain ⟨raised, hraised, rfl⟩ := Option.map_eq_some_iff.mp htarget
      refine hvector raised ((length_raiseTo hraised).trans length_replicate) fun p => ?_
      rw [getD_raiseTo hraised p (hzero p).ge, hzero p]
      exact max_eq_right (getD_nonneg (hprefetch gradient rfl) p)
  | cons r readers =>
    obtain ⟨raised, hraised, rfl⟩ := Option.map_eq_some_iff.mp htarget
    obtain ⟨hlength, hentry⟩ := foldlM_raiseTo_spec (r :: readers) hraised
    refine hvector raised (hlength.trans length_replicate) fun p => ?_
    rw [hentry p (hzero p).ge, hzero p, map_cons, foldl_cons,
      max_eq_right (getD_nonneg (hreaders r (by simp)) p)]
    simp only [wantedOf, map_cons, max?_cons', getD_some]

namespace PieceScheduler

def recorded (s : PieceScheduler) (infoHash : Str) : List ℤ :=
  (s.elevated.get infoHash).getD []

def getPiecePriority (s : PieceScheduler) (infoHash : Str) (piece : ℤ) : ℤ :=
  if 0 ≤ piece then (s.recorded infoHash).getD piece.toNat 0 else 0

def wanted (s : PieceScheduler) (infoHash : Str) (p : ℕ) : ℤ :=
  wantedOf (s.readersOf infoHash) (s.prefetch.get infoHash) p

def wantedByReaders (s : PieceScheduler) (infoHash : Str) (p : ℕ) : ℤ :=
  wantedOf (s.readersOf infoHash) none p

/-- The recorded priority of every piece of a torrent is zero if the piece is complete and what
is asked for otherwise. -/
def RecordedAt (s : PieceScheduler) (infoHash : Str) (isComplete : ℤ → Bool) : Prop :=
  ∀ p < (s.recorded infoHash).length,
    s.getPiecePriority infoHash p = if isComplete p then 0 else s.wanted infoHash p

@[simp] lemma getPiecePriority_natCast (s : PieceScheduler) (infoHash : Str) (p : ℕ) :
    s.getPiecePriority infoHash p = (s.recorded infoHash).getD p 0 := by
  simp [getPiecePriority]

structure Nonneg (s : PieceScheduler) : Prop extends Gradients (fun _ v => ∀ x ∈ v, 0 ≤ x) s where
  config : s.config.Nonneg

lemma clearable_nonneg : Clearable fun _ v => ∀ x ∈ v, 0 ≤ x := by
  intro _ v held hv x hx
  obtain ⟨p, hp, rfl⟩ := List.mem_mapIdx.mp hx
  split
  · exact le_refl 0
  · exact hv _ (getElem_mem hp)

/-- An event of one torrent leaves the others alone. -/
structure SameElsewhere (infoHash : Str) (s s' : PieceScheduler) : Prop where
  elevated : ∀ k, k ≠ infoHash → s'.elevated.get k = s.elevated.get k
  readers : ∀ k, k ≠ infoHash → s'.readersOf k = s.readersOf k
  prefetch : ∀ k, k ≠ infoHash → s'.prefetch.get k = s.prefetch.get k
  dirty : ∀ k, k ≠ infoHash → (k ∈ s'.dirty ↔ k ∈ s.dirty)
  config : s'.config = s.config

namespace SameElsewhere

variable {infoHash k : Str} {s s' s'' : PieceScheduler}

protected lemma refl (infoHash : Str) (s : PieceScheduler) : SameElsewhere infoHash s s :=
  ⟨fun _ _ => rfl, fun _ _ => rfl, fun _ _ => rfl, fun _ _ => Iff.rfl, rfl⟩

section

variable (h : SameElsewhere infoHash s s')
include h

lemma recorded_eq (hk : k ≠ infoHash) : s'.recorded k = s.recorded k := by
  rw [recorded, recorded, h.elevated k hk]

lemma wanted_eq (hk : k ≠ infoHash) (p : ℕ) : s'.wanted k p = s.wanted k p := by
  rw [wanted, wanted, h.readers k hk, h.prefetch k hk]

lemma recordedAt_iff (hk : k ≠ infoHash) (isComplete : ℤ → Bool) :
    s'.RecordedAt k isComplete ↔ s.RecordedAt k isComplete := by
  simp only [RecordedAt, getPiecePriority_natCast, h.recorded_eq hk, h.wanted_eq hk]

end

end SameElsewhere

lemma held_eq_iff (held held' : Bool) (prio : ℤ) :
    ((if held then 0 else prio) = if held' then 0 else prio) ↔ held' = held ∨ prio = 0 := by
  cases held <;> cases held' <;> simp [eq_comm]

variable {s s' : PieceScheduler} {infoHash : Str} {isComplete : ℤ → Bool}

lemma recordedAt_congr_iff (h : s.RecordedAt infoHash isComplete) (isComplete' : ℤ → Bool) :
    s.RecordedAt infoHash isComplete' ↔ ∀ p < (s.recorded infoHash).length,
      isComplete' p = isComplete p ∨ s.wanted infoHash p = 0 := by
  refine forall₂_congr fun p hp => ?_
  rw [h p hp]
  exact held_eq_iff _ _ _

/-! ### Recompute -/

section

variable (h : s.recompute infoHash isComplete = some s')
include h

lemma recompute_cases :
    (s.recorded infoHash = [] ∧ s' = s) ∨
      (s.recorded infoHash ≠ [] ∧ ∃ target,
        resolveTarget (s.readersOf infoHash) (s.prefetch.get infoHash)
          (s.recorded infoHash).length = some target ∧
        s' = { s with
          dirty := s.dirty.erase infoHash
          elevated := s.elevated.insert infoHash
            (applyTarget (s.recorded infoHash).length isComplete target) }) := by
  unfold recompute at h
  cases hget : s.elevated.get infoHash with
  | none =>
    rw [hget] at h
    exact .inl ⟨by rw [recorded, hget]; rfl, (Option.some.inj h).symm⟩
  | some priorities =>
    have hrecorded : s.recorded infoHash = priorities := by rw [recorded, hget]; rfl
    rw [hget] at h
    dsimp only at h
    rw [hrecorded]
    by_cases hempty : priorities = []
    · rw [if_pos hempty] at h
      exact .inl ⟨hempty, (Option.some.inj h).symm⟩
    · rw [if_neg hempty] at h
      obtain ⟨target, htarget, hs'⟩ := Option.map_eq_some_iff.mp h
      exact .inr ⟨hempty, target, htarget, hs'.symm⟩

lemma sameElsewhere_recompute : SameElsewhere infoHash s s' := by
  rcases recompute_cases h with ⟨-, rfl⟩ | ⟨-, target, -, rfl⟩
  · exact .refl infoHash _
  · exact ⟨fun k hk => by simp [hk], fun k hk => rfl, fun k hk => rfl,
      fun k hk => by simp [hk], rfl⟩

lemma recompute_keeps :
    s'.readers = s.readers ∧ s'.prefetch = s.prefetch ∧ s'.config = s.config := by
  rcases recompute_cases h with ⟨-, rfl⟩ | ⟨-, target, -, rfl⟩ <;> exact ⟨rfl, rfl, rfl⟩

end

lemma Nonneg.congr (h : s.Nonneg) (hreaders : s'.readers = s.readers)
    (hprefetch : s'.prefetch = s.prefetch) (hconfig : s'.config = s.config) : s'.Nonneg :=
  ⟨h.toGradients.congr hreaders hprefetch, hconfig ▸ h.config⟩

lemma Nonneg.recompute (h : s.Nonneg) (hrecompute : s.recompute infoHash isComplete = some s') :
    s'.Nonneg := by
  obtain ⟨hreaders, hprefetch, hconfig⟩ := recompute_keeps hrecompute
  exact h.congr hreaders hprefetch hconfig

lemma recordedAt_of_recompute (h : s.Nonneg)
    (hrecompute : s.recompute infoHash isComplete = some s') :
    s'.RecordedAt infoHash isComplete := by
  rcases recompute_cases hrecompute with ⟨hempty, rfl⟩ | ⟨-, target, htarget, rfl⟩
  · intro p hp
    simp [hempty] at hp
  · obtain ⟨hlength, hentry⟩ := applyTarget_spec (h.readers infoHash) (h.prefetch infoHash)
      htarget isComplete
    intro p hp
    rw [getPiecePriority_natCast]
    simp only [recorded, get_insert_self, getD_some] at hlength hentry hp ⊢
    exact hentry p (hlength ▸ hp)

/-! ### Readers -/

lemma readerAdded_cases {info : TorrentInfo}
    (hhash : info.infoHash = .ok infoHash) {fileIndex : ℤ} {offset size : ℕ}
    {answer : Except FfiError FilePieceInfo} {result : Except FfiError (ℕ × Bool)}
    (h : s.readerAdded info fileIndex offset size answer isComplete = some (s', result)) :
    (s.gradientFor info fileIndex offset size answer = none ∧
        s' = { s with nextReadId := addU64 s.nextReadId 1 }) ∨
      ∃ gradient, s.gradientFor info fileIndex offset size answer = some gradient ∧
        (s.pushReader infoHash gradient).recompute infoHash isComplete = some s' := by
  rw [readerAdded_eq hhash] at h
  cases hgradient : s.gradientFor info fileIndex offset size answer with
  | none =>
    rw [hgradient] at h
    exact .inl ⟨rfl, (congrArg Prod.fst (Option.some.inj h)).symm⟩
  | some gradient =>
    rw [hgradient] at h
    obtain ⟨recomputed, hrecompute, hpair⟩ := Option.map_eq_some_iff.mp h
    obtain rfl : recomputed = s' := congrArg Prod.fst hpair
    exact .inr ⟨gradient, rfl, hrecompute⟩

lemma gradientFor_nonneg (hconfig : s.config.Nonneg) {info : TorrentInfo}
    {fileIndex : ℤ} {offset size : ℕ} {answer : Except FfiError FilePieceInfo}
    {gradient : List ℤ} (h : s.gradientFor info fileIndex offset size answer = some gradient) :
    ∀ x ∈ gradient, 0 ≤ x := by
  unfold gradientFor at h
  dsimp only at h
  repeat' split at h
  all_goals first
    | cases h
      intro x hx
      obtain ⟨p, -, rfl⟩ := List.mem_map.mp hx
      exact iteInduction (motive := fun x : ℤ => 0 ≤ x)
        (fun _ => decidePriority_nonneg hconfig _ _ _ _) fun _ => le_refl 0
    | cases h

lemma sameElsewhere_pushReader (s : PieceScheduler) (infoHash : Str) (gradient : List ℤ) :
    SameElsewhere infoHash s (s.pushReader infoHash gradient) where
  elevated _ _ := rfl
  readers k hk := by rw [readersOf_pushReader, if_neg hk]
  prefetch _ _ := rfl
  dirty _ _ := Iff.rfl
  config := rfl

lemma dropReader_keeps (s : PieceScheduler) (infoHash : Str) (id : ℕ) (isComplete : ℤ → Bool) :
    SameElsewhere infoHash s (s.dropReader infoHash id isComplete) ∧
      (s.dropReader infoHash id isComplete).elevated = s.elevated ∧
      (s.dropReader infoHash id isComplete).dirty = s.dirty := by
  obtain ⟨readers, prefetch, heq, hreaders, hprefetch⟩ := s.dropReader_eq infoHash id isComplete
  rw [heq]
  refine ⟨⟨fun _ _ => rfl, fun k hk => ?_, fun k hk => ?_, fun _ _ => Iff.rfl, rfl⟩, rfl, rfl⟩
  · rw [readersOf, hreaders, if_neg hk]
  · rcases hprefetch with ⟨r, -, -, hget⟩ | ⟨-, rfl⟩
    · dsimp only
      rw [hget, if_neg hk]
    · rfl

lemma Nonneg.dropReader (h : s.Nonneg) (infoHash : Str) (id : ℕ)
    (isComplete : ℤ → Bool) : (s.dropReader infoHash id isComplete).Nonneg :=
  ⟨h.toGradients.dropReader clearable_nonneg infoHash id isComplete,
    (s.dropReader_keeps infoHash id isComplete).1.config ▸ h.config⟩

/-! ### Pieces that become ready -/

lemma getD_kept (gradient : List ℤ) (held : ℤ → Bool) (p : ℕ) :
    ((kept gradient held).getD []).getD p 0 = if held p then 0 else gradient.getD p 0 := by
  have hentry : (gradient.mapIdx fun p prio => if held p then 0 else prio).getD p 0 =
      if held p then 0 else gradient.getD p 0 := by
    simp only [getD_eq_getElem?_getD, getElem?_mapIdx]
    cases gradient[p]? <;> simp
  unfold kept
  dsimp only
  split
  · exact hentry
  · next hnone =>
    -- nothing is left of the gradient, so the entry was cleared as well
    simp only [List.any_eq_true, not_exists, not_and, bne_iff_ne, not_not] at hnone
    rw [← hentry]
    generalize gradient.mapIdx (fun p prio => if held p then 0 else prio) = wanted at hnone
    simp only [getD_eq_getElem?_getD]
    cases hp : wanted[p]? with
    | none => rfl
    | some x => exact (hnone x (mem_of_getElem? hp)).symm

section

variable (s infoHash) (piece : ℤ)

lemma pieceReady_frame : SameElsewhere infoHash s (s.pieceReady infoHash piece) ∧
      (s.pieceReady infoHash piece).readers = s.readers ∧
      (s.pieceReady infoHash piece).dirty = s.dirty ∧
      (s.pieceReady infoHash piece).recorded infoHash =
        (if 0 ≤ piece then (s.recorded infoHash).set piece.toNat 0 else s.recorded infoHash) ∧
      (s.pieceReady infoHash piece).prefetch.get infoHash =
        (s.prefetch.get infoHash).bind (kept · (· == piece)) := by
  obtain ⟨elevated, hzero, helevated⟩ := s.zeroPiece_eq infoHash piece
  obtain ⟨prefetch, hclear, hprefetch⟩ :=
    (s.zeroPiece infoHash piece).clearPrefetch_eq infoHash piece
  rw [pieceReady_eq, hclear]
  rw [hzero] at hprefetch ⊢
  refine ⟨⟨fun k hk => ?_, fun _ _ => rfl, fun k hk => ?_, fun _ _ => Iff.rfl, rfl⟩, rfl, rfl,
    ?_, ?_⟩
  · simp only [helevated, hk, false_and, if_false]
  · simp only [hprefetch, hk, if_false]
  · simp only [recorded, helevated, true_and]
    split
    · cases s.elevated.get infoHash <;> rfl
    · rfl
  · simp only [hprefetch, if_true]

lemma sameElsewhere_pieceReady : SameElsewhere infoHash s (s.pieceReady infoHash piece) :=
  (s.pieceReady_frame infoHash piece).1

lemma recorded_pieceReady : (s.pieceReady infoHash piece).recorded infoHash =
      if 0 ≤ piece then (s.recorded infoHash).set piece.toNat 0 else s.recorded infoHash :=
  (s.pieceReady_frame infoHash piece).2.2.2.1

lemma wanted_pieceReady (p : ℕ) : (s.pieceReady infoHash piece).wanted infoHash p =
      if (p : ℤ) = piece then s.wantedByReaders infoHash p else s.wanted infoHash p := by
  obtain ⟨-, hreaders, -, -, hprefetch⟩ := s.pieceReady_frame infoHash piece
  have hsame : (s.pieceReady infoHash piece).readersOf infoHash = s.readersOf infoHash := by
    rw [readersOf, hreaders, readersOf]
  rw [wanted, wanted, wantedByReaders, hsame, hprefetch]
  cases s.readersOf infoHash with
  | nil =>
    cases s.prefetch.get infoHash with
    | none => simp [wantedOf]
    | some gradient => simpa [wantedOf] using getD_kept gradient (· == piece) p
  | cons r readers => simp [wantedOf]

end

lemma Nonneg.pieceReady (h : s.Nonneg) (infoHash : Str) (piece : ℤ) :
    (s.pieceReady infoHash piece).Nonneg :=
  ⟨h.toGradients.pieceReady clearable_nonneg infoHash piece,
    (s.sameElsewhere_pieceReady infoHash piece).config ▸ h.config⟩

lemma recordedAt_pieceReady_iff
    (h : s.RecordedAt infoHash isComplete) (piece : ℤ) (isComplete' : ℤ → Bool) :
    (s.pieceReady infoHash piece).RecordedAt infoHash isComplete' ↔
      ∀ p < (s.recorded infoHash).length,
        if (p : ℤ) = piece then isComplete' p = true ∨ s.wantedByReaders infoHash p = 0
        else isComplete' p = isComplete p ∨ s.wanted infoHash p = 0 := by
  have hlength : ((s.pieceReady infoHash piece).recorded infoHash).length =
      (s.recorded infoHash).length := by
    rw [recorded_pieceReady]
    split
    · exact length_set
    · rfl
  rw [RecordedAt, hlength]
  refine forall₂_congr fun p hp => ?_
  rw [getPiecePriority_natCast, recorded_pieceReady, wanted_pieceReady]
  by_cases hpiece : (p : ℤ) = piece
  · subst hpiece
    rw [if_pos (Int.natCast_nonneg p), if_pos rfl, if_pos rfl, getD_eq_getElem?_getD,
      Int.toNat_natCast, getElem?_set_self hp, getD_some]
    cases isComplete' p <;> simp [eq_comm]
  · rw [if_neg hpiece, if_neg hpiece]
    have hkept : (if 0 ≤ piece then (s.recorded infoHash).set piece.toNat 0
        else s.recorded infoHash).getD p 0 = s.getPiecePriority infoHash p := by
      rw [getPiecePriority_natCast]
      split
      · simp only [getD_eq_getElem?_getD]
        rw [getElem?_set_ne (by omega)]
      · rfl
    rw [hkept, h p hp]
    exact held_eq_iff _ _ _

/-! ### Torrents that start and end -/

lemma recordedAt_initTorrent
    (hrecorded : s.recorded infoHash = []) (hreaders : s.readersOf infoHash = [])
    (numPieces pieceLength : ℤ) (isComplete : ℤ → Bool) :
    (s.initTorrent infoHash numPieces pieceLength).RecordedAt infoHash isComplete := by
  intro p hp
  rw [getPiecePriority_natCast]
  unfold initTorrent at hp ⊢
  split at hp
  · simp [hrecorded] at hp
  · next hpieces =>
    have hnone : wantedOf [] none p = 0 := by simp [wantedOf]
    rw [readersOf] at hreaders
    rw [if_neg hpieces]
    simp only [recorded, get_insert_self, getD_some, wanted, readersOf, hreaders,
      get_erase, if_true, hnone, ite_self, getD_replicate_zero]

lemma sameElsewhere_initTorrent (s : PieceScheduler) (infoHash : Str) (numPieces pieceLength : ℤ) :
    SameElsewhere infoHash s (s.initTorrent infoHash numPieces pieceLength) := by
  unfold initTorrent
  split
  · exact .refl infoHash s
  · exact ⟨fun k hk => by simp [hk], fun _ _ => rfl, fun k hk => by simp [hk],
      fun k hk => by simp [hk], rfl⟩

lemma sameElsewhere_removeTorrent (s : PieceScheduler) (infoHash : Str) :
    SameElsewhere infoHash s (s.removeTorrent infoHash) :=
  ⟨fun k hk => by simp [removeTorrent, hk], fun k hk => by simp [removeTorrent, readersOf, hk],
    fun k hk => by simp [removeTorrent, hk], fun k hk => by simp [removeTorrent, hk], rfl⟩

lemma Nonneg.initTorrent (h : s.Nonneg) (infoHash : Str)
    (numPieces pieceLength : ℤ) : (s.initTorrent infoHash numPieces pieceLength).Nonneg :=
  ⟨h.toGradients.initTorrent infoHash numPieces pieceLength,
    (s.sameElsewhere_initTorrent infoHash numPieces pieceLength).config ▸ h.config⟩

lemma Nonneg.removeTorrent (h : s.Nonneg) (infoHash : Str) : (s.removeTorrent infoHash).Nonneg :=
  ⟨h.toGradients.removeTorrent infoHash, h.config⟩

lemma markPrioritiesDirty_keeps (s : PieceScheduler) (infoHash : Str) :
    (s.markPrioritiesDirty infoHash).elevated = s.elevated ∧
      (s.markPrioritiesDirty infoHash).readers = s.readers ∧
      (s.markPrioritiesDirty infoHash).prefetch = s.prefetch ∧
      (s.markPrioritiesDirty infoHash).config = s.config := by
  unfold markPrioritiesDirty
  split <;> exact ⟨rfl, rfl, rfl, rfl⟩

lemma mem_dirty_markPrioritiesDirty (s : PieceScheduler) (infoHash k : Str) :
    k ∈ (s.markPrioritiesDirty infoHash).dirty ↔
      k ∈ s.dirty ∨ (k = infoHash ∧ s.elevated.contains infoHash = true) := by
  unfold markPrioritiesDirty
  split
  · next hcontains => simp [hcontains, or_comm]
  · next hcontains => simp [hcontains]

/-! ### The calls to libtorrent -/

/-- The calls of `recompute`: one bulk call when nothing is asked for, otherwise one call for
each piece that changes, or for every piece on a full rewrite. -/
def recomputeWrites (s : PieceScheduler) (infoHash : Str) (isComplete : ℤ → Bool)
    (fullRewrite : Bool) : List (Shadow.Write ℤ) :=
  match s.recorded infoHash with
  | [] => []
  | priorities =>
    match resolveTarget (s.readersOf infoHash) (s.prefetch.get infoHash) priorities.length with
    -- an index out of bounds ends the thread before it makes a call
    | none => []
    | some none => [.all 0]
    | some (some target) => Shadow.updates (!fullRewrite) priorities
        (applyTarget priorities.length isComplete (some target))

def readerAddedWrites (s : PieceScheduler) (info : TorrentInfo) (infoHash : Str) (fileIndex : ℤ)
    (offset size : ℕ) (answer : Except FfiError FilePieceInfo) (isComplete : ℤ → Bool) :
    List (Shadow.Write ℤ) :=
  match s.gradientFor info fileIndex offset size answer with
  | none => []
  | some gradient => (s.pushReader infoHash gradient).recomputeWrites infoHash isComplete
      (infoHash ∈ s.dirty)

def readerReleasedWrites (s : PieceScheduler) (infoHash : Str) (id : ℕ) (isComplete : ℤ → Bool) :
    List (Shadow.Write ℤ) :=
  (s.dropReader infoHash id isComplete).recomputeWrites infoHash isComplete (infoHash ∈ s.dirty)

def pieceReadyWrites (s : PieceScheduler) (infoHash : Str) (piece : ℤ) : List (Shadow.Write ℤ) :=
  if s.getPiecePriority infoHash piece ≠ 0 then [.cell piece.toNat 0] else []

lemma mirrors_recompute
    (h : s.recompute infoHash isComplete = some s') {given : ℕ → ℤ} {fullRewrite : Bool}
    (hbefore : fullRewrite = true ∨ Shadow.Mirrors given (s.recorded infoHash)) :
    Shadow.Mirrors (Shadow.writes given (s.recomputeWrites infoHash isComplete fullRewrite))
      (s'.recorded infoHash) := by
  rcases recompute_cases h with ⟨hempty, rfl⟩ | ⟨hsome, target, htarget, rfl⟩
  · rw [hempty]
    intro p a hp
    cases hp
  · unfold recomputeWrites
    split
    · next hempty => exact absurd hempty hsome
    · rw [htarget]
      simp only [recorded, get_insert_self, getD_some]
      cases target with
      | none => exact Shadow.mirrors_replicate _ 0
      | some target =>
        rcases hbefore with rfl | hmirrors
        · exact Shadow.mirrors_updates_all _ _ _
        · exact hmirrors.updates _ _

lemma recomputeWrites_skip {given : ℕ → ℤ}
    (h : Shadow.Mirrors given (s.recorded infoHash)) (isComplete : ℤ → Bool) :
    Shadow.writes given (s.recomputeWrites infoHash isComplete false) =
      Shadow.writes given (s.recomputeWrites infoHash isComplete true) := by
  unfold recomputeWrites
  split
  · rfl
  · split
    · rfl
    · rfl
    · exact h.updates_skip _

lemma mirrors_pieceReady {given : ℕ → ℤ}
    (h : Shadow.Mirrors given (s.recorded infoHash)) (piece : ℤ) :
    Shadow.Mirrors (Shadow.writes given (s.pieceReadyWrites infoHash piece))
      ((s.pieceReady infoHash piece).recorded infoHash) := by
  rw [recorded_pieceReady]
  unfold pieceReadyWrites getPiecePriority
  by_cases hpiece : 0 ≤ piece
  · rw [if_pos hpiece, if_pos hpiece]
    split
    · exact h.set piece.toNat 0
    · next hzero =>
      -- the entry is zero, or there is none: setting it changes nothing
      have hsame : (s.recorded infoHash).set piece.toNat 0 = s.recorded infoHash := by
        apply ext_getElem?
        intro p
        rw [not_not, getD_eq_getElem?_getD] at hzero
        rw [getElem?_set]
        split
        · next hp =>
          subst hp
          split
          · next hlt => rw [← hzero, getElem?_eq_getElem hlt, getD_some]
          · next hge => exact (getElem?_eq_none (not_lt.mp hge)).symm
        · rfl
      rw [hsame]
      exact h
  · rw [if_neg hpiece, if_neg hpiece, if_neg (fun hne => hne rfl)]
    exact h

end PieceScheduler

end TorrentFs.Download
