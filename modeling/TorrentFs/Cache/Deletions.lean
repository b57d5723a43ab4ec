import TorrentFs.Cache.Verification

/-!
# What the background verifier deletes

The verifier lists the unverified keys once and deletes a key, under the lock, when the check it
made without the lock failed. `delete_piece` looks at neither set of tags, so a key that was
registered since the listing is deleted with its tag.

A key waits from its listing until the verifier is done with it. The keys that wait carry no tag as
long as none of them is registered.
-/

namespace TorrentFs.Cache

open Text Word List Option

def VerifierPhase.listed : VerifierPhase → List Str
  | .start => []
  | .pending keys => keys
  | .resolved key rest => key :: rest
  | .checked key _ rest => key :: rest

def VerifierPhase.waiting : VerifierPhase → List Str
  | .checked _ .verified rest => rest
  | .checked _ .skipped rest => rest
  | phase => phase.listed

lemma VerifierPhase.waiting_subset (phase : VerifierPhase) : phase.waiting ⊆ phase.listed := by
  unfold waiting
  split
  · exact subset_cons_self _ _
  · exact subset_cons_self _ _
  · exact List.Subset.refl _

namespace CacheManager

def Untagged (key : Str) (c : CacheManager) : Prop :=
  key ∉ c.verifiedPieceKeys ∧ key ∉ c.incompletePieceKeys

namespace Untagged

variable {key k : Str} {c c' : CacheManager}

section

variable (h : Untagged key c)
include h

lemma mono (hverified : c'.verifiedPieceKeys ⊆ c.verifiedPieceKeys)
    (hincomplete : c'.incompletePieceKeys ⊆ c.incompletePieceKeys) : Untagged key c' :=
  ⟨fun hmem => h.1 (hverified hmem), fun hmem => h.2 (hincomplete hmem)⟩

lemma removePiece {f : Faults} (hrm : c.removePiece f k = .ok c') : Untagged key c' := by
  have hremoved := removed_of_removePiece hrm
  apply h.mono
  · rw [hremoved.verified]
    exact Finset.erase_subset _ _
  · rw [hremoved.incomplete]
    exact Finset.erase_subset _ _

omit h in
lemma kept : Kept (Untagged key) := ⟨fun h => h.removePiece, id, id, id⟩

lemma recordAccess (now : ℕ) (k : Str) : Untagged key (c.recordAccess now k).1 := by
  unfold CacheManager.recordAccess
  cases c.metadata.get k with
  | none | some => exact h

lemma addPiece (hne : key ≠ k) (now : ℕ) (f : Faults) (size : ℕ) :
    Untagged key (c.addPiece now f k size).1 := by
  refine Untagged.kept.addPiece h fun _ => ⟨?_, ?_⟩
  · exact fun hmem => (Finset.mem_insert.mp hmem).elim hne h.1
  · exact fun hmem => h.2 (Finset.mem_of_mem_erase hmem)

lemma registerIncompletePiece (hne : key ≠ k) (now : ℕ) (f : Faults) (size : ℕ) :
    Untagged key (c.registerIncompletePiece now f k size).1 := by
  refine Untagged.kept.registerIncompletePiece h fun _ _ _ => ⟨?_, ?_⟩
  · exact fun hmem => h.1 (Finset.mem_of_mem_erase hmem)
  · exact fun hmem => (Finset.mem_insert.mp hmem).elim hne h.2

lemma dropInfohashState (infoHash : Str) : Untagged key (c.dropInfohashState infoHash) :=
  h.mono (Finset.filter_subset _ _) (Finset.filter_subset _ _)

lemma markVerified (hne : key ≠ k) : Untagged key (c.markVerified k) := by
  constructor
  · exact fun hmem => (Finset.mem_insert.mp hmem).elim hne h.1
  · exact fun hmem => h.2 (Finset.mem_of_mem_erase hmem)

end

end Untagged

lemma untagged_of_mem_unverifiedPieces {c : CacheManager} {key : Str}
    (h : key ∈ c.unverifiedPieces) : Untagged key c := (Finset.mem_filter.mp h).2

end CacheManager

namespace VerifierSystem

open CacheManager

variable {data : TorrentData} {s t : VerifierSystem} {a : VerifierAction}

/-- The step registers no piece the verifier may still delete; blocks of such a piece may be
written. -/
def LeavesWaiting (s : VerifierSystem) : VerifierAction → Prop
  | .addPiece _ _ key _ => key ∉ s.phase.waiting
  | .registerIncompletePiece _ _ key _ => key ∉ s.phase.waiting
  | _ => True

/-- The keys listed are distinct, and those that may be deleted carry no tag. -/
structure WaitingUntagged (s : VerifierSystem) : Prop where
  distinct : s.phase.listed.Nodup
  untagged : ∀ key ∈ s.phase.waiting, Untagged key s.cache

namespace WaitingUntagged

lemma withCache (h : WaitingUntagged s) {c : CacheManager}
    (hkeep : ∀ key ∈ s.phase.waiting, Untagged key s.cache → Untagged key c) :
    WaitingUntagged { s with cache := c } :=
  ⟨h.distinct, fun key hkey => hkeep key hkey (h.untagged key hkey)⟩

lemma withPhase (h : WaitingUntagged s) {phase : VerifierPhase}
    (hlisted : phase.listed.Sublist s.phase.listed) (hwaiting : phase.waiting ⊆ s.phase.waiting) :
    WaitingUntagged { s with phase := phase } :=
  ⟨h.distinct.sublist hlisted, fun key hkey => h.untagged key (hwaiting hkey)⟩

lemma step (h : WaitingUntagged s) (ha : LeavesWaiting s a) (hstep : step data s a = some t) :
    WaitingUntagged t := by
  cases a with
  | list keys =>
    simp only [VerifierSystem.step, ite_none_right_eq_some, Option.some.injEq] at hstep
    obtain ⟨⟨-, hnodup, hkeys⟩, rfl⟩ := hstep
    refine ⟨hnodup, fun key hkey => ?_⟩
    apply untagged_of_mem_unverifiedPieces
    rw [← hkeys]
    exact List.mem_toFinset.mpr hkey
  | resolve =>
    simp only [VerifierSystem.step] at hstep
    split at hstep
    · next key rest hphase =>
      cases hstep
      -- the key is kept at the head of the list or skipped
      rcases resolveKey_cases data key rest with heq | heq <;> rw [heq]
      · apply h.withPhase <;> rw [hphase]
        · exact sublist_cons_self _ _
        · exact subset_cons_self _ _
      · apply h.withPhase <;> rw [hphase]
        · exact List.Sublist.refl _
        · exact List.Subset.refl _
    · cases hstep
  | check sparse =>
    simp only [VerifierSystem.step] at hstep
    split at hstep
    · next key rest hphase =>
      cases hstep
      apply h.withPhase
      · rw [hphase]
        exact List.Sublist.refl _
      · rw [hphase]
        exact VerifierPhase.waiting_subset _
    · cases hstep
  | applyOutcome f =>
    simp only [VerifierSystem.step] at hstep
    split at hstep
    · next key rest hphase =>
      cases hstep
      obtain ⟨hdistinct, huntagged⟩ := h
      rw [hphase] at hdistinct huntagged
      obtain ⟨hkey, hrest⟩ := List.nodup_cons.mp hdistinct
      refine ⟨hrest, fun k hk => (huntagged k hk).markVerified ?_⟩
      -- the keys listed are distinct, so the mark concerns none of the rest
      rintro rfl
      exact hkey hk
    · next key rest hphase =>
      cases hstep
      obtain ⟨hdistinct, huntagged⟩ := h
      rw [hphase] at hdistinct huntagged
      refine ⟨(List.nodup_cons.mp hdistinct).2, fun k hk => ?_⟩
      exact Untagged.kept.deletePiece (huntagged k (mem_cons_of_mem key hk)) f key
    · next key rest hphase =>
      cases hstep
      apply h.withPhase
      · rw [hphase]
        exact sublist_cons_self _ _
      · rw [hphase]
        exact List.Subset.refl _
    · cases hstep
  | recordAccess now key =>
    cases hstep
    exact h.withCache fun k _ huntagged => huntagged.recordAccess now key
  | addPiece now f key size =>
    cases hstep
    refine h.withCache fun k hk huntagged => huntagged.addPiece ?_ now f size
    rintro rfl
    exact ha hk
  | registerIncompletePiece now f key size =>
    cases hstep
    refine h.withCache fun k hk huntagged => huntagged.registerIncompletePiece ?_ now f size
    rintro rfl
    exact ha hk
  | evictLru f =>
    cases hstep
    exact h.withCache fun k _ huntagged => Untagged.kept.evictLru huntagged f
  | dropInfohashState infoHash =>
    cases hstep
    exact h.withCache fun k _ huntagged => huntagged.dropInfohashState infoHash
  | writeBlock key offset bytes markerFails =>
    simp only [VerifierSystem.step, ite_none_left_eq_some, Option.some.injEq] at hstep
    obtain ⟨-, rfl⟩ := hstep
    exact h.withCache fun k _ huntagged => huntagged

end WaitingUntagged

/-- From any cache, in every run that registers no piece the verifier may still delete, the piece
the verifier is about to delete is neither verified nor incomplete. -/
theorem untagged_of_leavesWaiting_run {data : TorrentData} {c₀ : CacheManager}
    {s : VerifierSystem} {as : List VerifierAction}
    (halong : Run.Along (VerifierSystem.step data) LeavesWaiting ⟨c₀, .start⟩ as)
    (hrun : Run.runFrom (VerifierSystem.step data) ⟨c₀, .start⟩ as = some s) {key : Str}
    {rest : List Str} (hphase : s.phase = .checked key .purged rest) :
    key ∉ s.cache.verifiedPieceKeys ∧ key ∉ s.cache.incompletePieceKeys := by
  have hstart : WaitingUntagged ⟨c₀, .start⟩ :=
    ⟨List.nodup_nil, List.forall_mem_nil _⟩
  have hinv : WaitingUntagged s :=
    Run.invariant_of_run_along (fun _ _ _ hinv ha hs => WaitingUntagged.step hinv ha hs) hstart
      halong hrun
  apply hinv.untagged key
  rw [hphase]
  exact List.mem_cons_self

def damagedContent : CacheContent :=
  ⟨some [.dir (some sampleHash) [.file (some sampleKey) (some [9])]], none⟩

theorem untagged_of_damaged_piece :
    ∃ c₀ s, CacheManager.new damagedContent 10 (fun _ => 0) false = .ok c₀ ∧
      Run.runFrom (VerifierSystem.step sampleData) ⟨c₀, .start⟩
        [.list [sampleKey], .resolve, .check false] = some s ∧
      s.phase = .checked sampleKey .purged [] ∧
      sampleKey ∉ s.cache.verifiedPieceKeys ∧ sampleKey ∉ s.cache.incompletePieceKeys := by
  obtain ⟨c₀, hnew⟩ : ∃ c₀, CacheManager.new damagedContent 10 (fun _ => 0) false = .ok c₀ :=
    ⟨_, rfl⟩
  obtain ⟨s, hrun, hphase⟩ : ∃ s, Run.runFrom (VerifierSystem.step sampleData) ⟨c₀, .start⟩
      [.list [sampleKey], .resolve, .check false] = some s ∧
        s.phase = .checked sampleKey .purged [] := by
    cases hnew
    exact ⟨_, rfl, by decide⟩
  refine ⟨c₀, s, hnew, hrun, hphase, untagged_of_leavesWaiting_run ?_ hrun hphase⟩
  exact ⟨trivial, fun _ _ => ⟨trivial, fun _ _ => ⟨trivial, fun _ _ => trivial⟩⟩⟩

/-- A damaged piece is downloaded again and registered as complete between its check and its
deletion: the verifier deletes it although it is verified. -/
theorem deletes_completed_download :
    ∃ c₀ s t, CacheManager.new damagedContent 10 (fun _ => 0) false = .ok c₀ ∧
      Run.runFrom (VerifierSystem.step sampleData) ⟨c₀, .start⟩
        [.list [sampleKey], .resolve, .check false, .writeBlock sampleKey 0 [7] false,
          .addPiece 1 .none sampleKey 1] = some s ∧
      sampleKey ∈ s.cache.verifiedPieceKeys ∧ s.cache.cacheDir.file sampleKey = some [7] ∧
      s.step sampleData (.applyOutcome .none) = some t ∧
      sampleKey ∉ t.cache.metadata.keys ∧ t.cache.cacheDir.file sampleKey = none :=
  ⟨_, _, _, rfl, rfl, by decide, by decide, rfl, by decide, by decide⟩

end VerifierSystem

end TorrentFs.Cache
