import TorrentFs.Download.PriorityRuns

/-!
# The retained gradient

When the last reader of a torrent leaves, the scheduler keeps its gradient, so that the pieces
ahead of it go on downloading. Pieces that are held leave the gradient, and it is dropped with the
last of them: at all times it is what `kept` leaves of the gradient of a reader.
-/

namespace TorrentFs.Download

open Text Cache List Option

/-- The events that readers and finished pieces cause. -/
inductive ReaderEvent
  | added (info : TorrentInfo) (fileIndex : ℤ) (offset size : ℕ)
      (answer : Except FfiError FilePieceInfo) (isComplete : ℤ → Bool)
  | released (infoHash : Str) (id : ℕ) (isComplete : ℤ → Bool)
  | ready (infoHash : Str) (piece : ℤ)

def ReaderEvent.readyPiece (k : Str) : ReaderEvent → Option ℤ
  | .ready infoHash piece => if infoHash = k then some piece else none
  | _ => none

namespace PieceScheduler

def readerStep (s : PieceScheduler) : ReaderEvent → Option PieceScheduler
  | .added info fileIndex offset size answer isComplete =>
    (s.readerAdded info fileIndex offset size answer isComplete).map Prod.fst
  | .released infoHash id isComplete => s.readerReleased infoHash id isComplete
  | .ready infoHash piece => some (s.pieceReady infoHash piece)

def left (s : PieceScheduler) (k : Str) : ReaderEvent → Option (Option (List ℤ))
  | .released infoHash id isComplete =>
    match s.readersOf k with
    | [r] => if infoHash = k ∧ r.id = id then some (kept r.gradient isComplete) else none
    | _ => none
  | _ => none

variable {s s' : PieceScheduler} {k : Str} {e : ReaderEvent} {g g' : List ℤ} {held : ℤ → Bool}

lemma kept_bind_kept (g : List ℤ) (held held' : ℤ → Bool) :
    (kept g held).bind (kept · held') = kept g fun p => held p || held' p := by
  have htwice : (g.mapIdx fun p prio => if held p then 0 else prio).mapIdx
      (fun p prio => if held' p then 0 else prio) =
        g.mapIdx fun p prio => if held p || held' p then 0 else prio := by
    rw [mapIdx_mapIdx]
    congr 1
    ext p prio
    cases held p <;> cases held' p <;> simp
  unfold kept
  dsimp only
  rw [← htwice]
  split
  · rfl
  · next hnone =>
    -- nothing was left before, so nothing is left after
    rw [bind_none, if_neg]
    simp only [List.any_eq_true, bne_iff_ne, not_exists, not_and, not_not] at hnone ⊢
    intro x hx
    obtain ⟨p, hp, rfl⟩ := List.mem_mapIdx.mp hx
    split
    · rfl
    · exact hnone _ (getElem_mem _)

lemma left_eq_none {infoHash : Str} {id : ℕ} {isComplete : ℤ → Bool}
    (h : ∀ r, s.readersOf k = [r] → ¬ (infoHash = k ∧ r.id = id)) :
    s.left k (.released infoHash id isComplete) = none := by
  unfold left
  dsimp only
  split
  · next r hr => rw [if_neg (h r hr)]
  · rfl

lemma prefetch_readerStep (h : s.readerStep e = some s') (k : Str) :
    s'.prefetch.get k = match s.left k e, e.readyPiece k with
      | some gradient, _ => gradient
      | none, some piece => (s.prefetch.get k).bind (kept · (· == piece))
      | none, none => s.prefetch.get k := by
  cases e with
  | added info fileIndex offset size answer isComplete =>
    obtain ⟨⟨t, result⟩, hadded, rfl⟩ := Option.map_eq_some_iff.mp h
    cases hhash : info.infoHash with
    | error e =>
      simp only [readerAdded, hhash] at hadded
      cases hadded
      rfl
    | ok infoHash =>
      rcases readerAdded_cases hhash hadded with ⟨-, rfl⟩ | ⟨gradient, -, hrecompute⟩
      · rfl
      · exact congrArg (·.get k) (recompute_keeps hrecompute).2.1
  | released infoHash id isComplete =>
    obtain ⟨readers, prefetch, heq, -, hprefetch⟩ := s.dropReader_eq infoHash id isComplete
    rw [readerStep, readerReleased_eq, heq] at h
    rw [(recompute_keeps h).2.1]
    rcases hprefetch with ⟨r, hlast, hid, hget⟩ | ⟨hnot, rfl⟩
    · by_cases hk : infoHash = k
      · subst hk
        simp [left, hlast, hid, hget]
      · rw [left_eq_none fun r _ h => absurd h.1 hk]
        simp [hget, Ne.symm hk, ReaderEvent.readyPiece]
    · have hnone : s.left k (.released infoHash id isComplete) = none := by
        apply left_eq_none
        rintro r hr ⟨rfl, hid⟩
        exact hnot r hr hid
      rw [hnone]
      rfl
  | ready infoHash piece =>
    cases h
    obtain ⟨hsame, -, -, -, hget⟩ := s.pieceReady_frame infoHash piece
    by_cases hk : infoHash = k
    · subst hk
      simp [ReaderEvent.readyPiece, left, hget]
    · simp [ReaderEvent.readyPiece, left, hk, hsame.prefetch k (Ne.symm hk)]

/-- No retained gradient is all zero: it keeps all that is left of it. -/
def Wanting (s : PieceScheduler) : Prop :=
  ∀ k g, s.prefetch.get k = some g → kept g (fun _ => false) = some g

lemma kept_of_kept (h : kept g held = some g') : kept g' (fun _ => false) = some g' := by
  have htwice := kept_bind_kept g held fun _ => false
  simpa [h] using htwice

lemma Wanting.step (hs : s.Wanting) (h : s.readerStep e = some s') : s'.Wanting := by
  intro k g hg
  rw [prefetch_readerStep h k] at hg
  cases hleft : s.left k e with
  | some gradient =>
    simp only [hleft] at hg
    subst hg
    unfold left at hleft
    repeat' split at hleft
    all_goals first | cases hleft | exact kept_of_kept (Option.some.inj hleft)
  | none =>
    cases hready : e.readyPiece k with
    | some piece =>
      simp only [hleft, hready] at hg
      obtain ⟨g₀, -, hkept⟩ := Option.bind_eq_some_iff.mp hg
      exact kept_of_kept hkept
    | none =>
      simp only [hleft, hready] at hg
      exact hs k g hg

lemma prefetch_of_run (hs : s.Wanting) {events : List ReaderEvent}
    (hstay : Run.Along readerStep (fun t e => t.left k e = none) s events)
    (hrun : Run.runFrom readerStep s events = some s') : s'.prefetch.get k = (s.prefetch.get k).bind
      (kept · fun p => decide (p ∈ events.filterMap (ReaderEvent.readyPiece k))) := by
  induction events generalizing s with
  | nil =>
    obtain rfl : s = s' := by simpa using hrun
    cases hg : s.prefetch.get k with
    | none => rfl
    | some g => simpa using (hs k g hg).symm
  | cons e events ih =>
    obtain ⟨t, ht, hrest⟩ := Run.runFrom_cons_eq_some.mp hrun
    obtain ⟨hnone, hstay⟩ := (Run.along_cons ht).mp hstay
    rw [ih (hs.step ht) hstay hrest, prefetch_readerStep ht k, hnone]
    cases hready : e.readyPiece k with
    | none => simp [hready]
    | some piece =>
      have hheld : ∀ p, (p == piece || decide (p ∈ events.filterMap (ReaderEvent.readyPiece k))) =
          decide (p ∈ (e :: events).filterMap (ReaderEvent.readyPiece k)) := by
        intro p
        rw [filterMap_cons_some hready, Bool.eq_iff_iff]
        simp
      simp only [bind_assoc, kept_bind_kept, hheld]

lemma exists_ne_zero_of_kept (h : kept g held = some g') : ∃ x ∈ g', x ≠ 0 := by
  obtain ⟨hany, rfl⟩ := Option.ite_some_none_eq_some.mp h
  simpa using hany

/-- In every run of reader additions, releases and ready pieces, no retained gradient is all zero.
The last reader that is released leaves its gradient without the complete pieces, if anything is
left of it. A release of an id that is not registered changes neither the readers nor what is
retained. Until another last reader leaves, what is retained is the gradient without the pieces that
have been reported as ready, and nothing once these are all it wants. -/
theorem retained_of_run (config : PiecePriorityConfig) (cacheCapacityBytes : ℕ) (infoHash : Str)
    (numPieces pieceLength : ℤ) (events : List ReaderEvent) (s : PieceScheduler)
    (hrun : Run.runFrom readerStep
      ((new config cacheCapacityBytes).initTorrent infoHash numPieces pieceLength) events =
        some s) : (∀ k g, s.prefetch.get k = some g → ∃ x ∈ g, x ≠ 0) ∧
    (∀ k r isComplete s', s.readersOf k = [r] → s.readerReleased k r.id isComplete = some s' →
      s'.prefetch.get k = kept r.gradient isComplete) ∧
    (∀ k id isComplete s', id ∉ s.idsOf k → s.readerReleased k id isComplete = some s' →
      (∀ j, s'.readersOf j = s.readersOf j) ∧ s'.prefetch = s.prefetch) ∧
    (∀ k g later s', s.prefetch.get k = some g →
      Run.Along readerStep (fun t e => t.left k e = none) s later →
      Run.runFrom readerStep s later = some s' → s'.prefetch.get k =
        kept g fun p => decide (p ∈ later.filterMap (ReaderEvent.readyPiece k))) := by
  have hstart : ((new config cacheCapacityBytes).initTorrent infoHash numPieces
      pieceLength).Wanting := by
    intro k g hg
    unfold initTorrent at hg
    split at hg
    · simp [new] at hg
    · simp [new, FinMap.get_erase] at hg
  have hwanting : s.Wanting := Run.invariant_of_run (fun _ _ _ hs h => hs.step h) hstart hrun
  refine ⟨fun k g hg => exists_ne_zero_of_kept (hwanting k g hg),
    fun k r isComplete s' hr hs' => ?_, fun k id isComplete s' hid hs' => ?_,
    fun k g later s' hg hstay hlater => ?_⟩
  · have hstep : s.readerStep (.released k r.id isComplete) = some s' := hs'
    rw [prefetch_readerStep hstep]
    simp [left, hr]
  · have hnot : ∀ r ∈ s.readersOf k, r.id ≠ id := fun r hr heq =>
      hid (List.mem_map.mpr ⟨r, hr, heq⟩)
    obtain ⟨readers, prefetch, heq, hreaders, hprefetch⟩ := s.dropReader_eq k id isComplete
    rw [readerReleased_eq, heq] at hs'
    obtain ⟨hkeeps, hprefetch', -⟩ := recompute_keeps hs'
    constructor
    · intro j
      rw [readersOf, hkeeps, hreaders]
      split
      · next hj =>
        apply List.eraseP_of_forall_not
        simpa [hj] using hnot
      · rfl
    · rcases hprefetch with ⟨r, hlast, hr, -⟩ | ⟨-, rfl⟩
      · exact absurd hr (hnot r (by simp [hlast]))
      · exact hprefetch'
  · rw [prefetch_of_run hwanting hstay hlater, hg, Option.bind_some]

open PriorityState in
theorem retained_after_read :
    ∃ s s', Run.runFrom readerStep ((new defaultPriorities 100).initTorrent sampleHash 2 4)
        [.added twoPieces 0 0 4 (.ok ⟨0, 2, 0⟩) fun _ => false] = some s ∧
      s.readerReleased sampleHash 0 (· == 0) = some s' ∧
      s'.prefetch.get sampleHash = kept [7, 6] (· == 0) := by
  obtain ⟨s, hs, hreaders, hsome⟩ : ∃ s, Run.runFrom readerStep
      ((new defaultPriorities 100).initTorrent sampleHash 2 4)
      [.added twoPieces 0 0 4 (.ok ⟨0, 2, 0⟩) fun _ => false] = some s ∧
      s.readersOf sampleHash = [⟨0, [7, 6]⟩] ∧
      (s.readerReleased sampleHash 0 (· == 0)).isSome = true := by decide +kernel
  obtain ⟨s', hs'⟩ := Option.isSome_iff_exists.mp hsome
  exact ⟨s, s', hs, hs',
    (retained_of_run defaultPriorities 100 sampleHash 2 4 _ s hs).2.1 _ _ _ s' hreaders hs'⟩

end PieceScheduler

end TorrentFs.Download
