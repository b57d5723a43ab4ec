import TorrentFs.Lib.Run
import TorrentFs.Cache.Scan

/-!
# Size accounting of the cache

`current_size` is kept beside the metadata map: registrations credit it, removals debit it and
the startup walk rebuilds it. The module says when it is the sum of the recorded sizes.
-/

namespace TorrentFs.Cache

open Text Word List FinMap

/-- A call that changes the cache. A restart drops the manager and builds a new one from
whatever the cache directory holds by then. -/
inductive CacheOp
  | startup (content : CacheContent) (maxCacheSize : ℕ) (clock : Str → ℕ) (saveFails : Bool)
  | recordAccess (now : ℕ) (key : Str)
  | addPiece (now : ℕ) (f : Faults) (key : Str) (size : ℕ)
  | registerIncompletePiece (now : ℕ) (f : Faults) (key : Str) (size : ℕ)
  | evictLru (f : Faults)
  | deletePiece (f : Faults) (key : Str)
  | dropInfohashState (infoHash : Str)
  | markVerified (key : Str)

namespace CacheManager

def step (c : CacheManager) : CacheOp → Option CacheManager
  | .startup content maxCacheSize clock saveFails =>
    (new content maxCacheSize clock saveFails).toOption
  | .recordAccess now key => some (c.recordAccess now key).1
  | .addPiece now f key size => some (c.addPiece now f key size).1
  | .registerIncompletePiece now f key size => some (c.registerIncompletePiece now f key size).1
  | .evictLru f => some (c.evictLru f).1
  | .deletePiece f key => some (c.deletePiece f key).1
  | .dropInfohashState infoHash => some (c.dropInfohashState infoHash)
  | .markVerified key => some (c.markVerified key)

/-- The accounted size is the recorded total, and only valid keys are recorded. -/
structure WellAccounted (c : CacheManager) : Prop where
  keysValid : ∀ key ∈ c.metadata.keys, isValidPieceKey key = true
  exact : c.currentSize = c.registeredTotal
  bounded : c.currentSize < 2 ^ 64

/-- A registration of `size` bytes is credited in full: the piece does not shrink and the
counter does not wrap. -/
def CreditsExactly (c : CacheManager) (key : Str) (size : ℕ) : Prop :=
  c.registeredSize key ≤ size ∧ c.currentSize + (size - c.registeredSize key) < 2 ^ 64

end CacheManager

open CacheManager in
/-- The startup walk meets no key twice, and the sizes it meets fit the counter. -/
def CacheContent.Exact (content : CacheContent) : Prop :=
  ((startupFiles content).map Prod.fst).Nodup ∧ ((startupFiles content).map Prod.snd).sum < 2 ^ 64

/-- The calls that account for every byte in the state `c`. -/
def CacheOp.Exact (c : CacheManager) : CacheOp → Prop
  | .startup content _ _ _ => content.Exact
  | .addPiece _ _ key size => isValidPieceKey key = true → c.CreditsExactly key size
  | .registerIncompletePiece _ f key size =>
    isValidPieceKey key = true → f.createMarker = false → f.syncMarker = false →
      c.CreditsExactly key size
  | _ => True

namespace CacheManager

variable {c c' : CacheManager}

lemma WellAccounted.congr (h : WellAccounted c)
    (hmap : c'.metadata = c.metadata) (hsize : c'.currentSize = c.currentSize) :
    WellAccounted c' where
  keysValid := hmap ▸ h.keysValid
  exact := by
    unfold registeredTotal
    rw [hmap, hsize]
    exact h.exact
  bounded := hsize ▸ h.bounded

/-! ### Startup -/

/-- The accounted size is the total over the keys met so far, which are valid. -/
private structure ScanAccounted (s : ScanState) : Prop where
  metValid : ∀ key ∈ s.2, isValidPieceKey key = true
  exact : s.1.currentSize =
    (s.1.metadata.filter fun key => decide (key ∈ s.2)).total PieceMetadata.size

private lemma ScanAccounted.register {root : List DirEntry} {clock : Str → ℕ} {s : ScanState}
    (h : ScanAccounted s) {key : Str} {size : ℕ} (hvalid : isValidPieceKey key = true)
    (hnew : key ∉ s.2) (hbound : s.1.currentSize + size < 2 ^ 64) :
    ScanAccounted (registerScanned root clock s key size) := by
  constructor
  · exact Finset.forall_mem_insert _ _ _ |>.mpr ⟨hvalid, h.metValid⟩
  · -- the new entry joins the filtered map, which had none under this key
    set info : PieceMetadata :=
      { lastAccessed := ((s.1.metadata.get key).map PieceMetadata.lastAccessed).getD (clock key)
        size := size
        hitCount := ((s.1.metadata.get key).map PieceMetadata.hitCount).getD 0 } with hinfo
    have hfilter : ((s.1.metadata.insert key info).filter fun k => decide (k ∈ insert key s.2)) =
        (s.1.metadata.filter fun k => decide (k ∈ s.2)).insert key info := by
      ext1 k
      by_cases hk : k = key <;> simp [hk]
    have hnone : (s.1.metadata.filter fun k => decide (k ∈ s.2)).get key = none := by
      simp [hnew]
    have htotal := total_insert_add (s.1.metadata.filter fun k => decide (k ∈ s.2))
      PieceMetadata.size key info
    rw [weight_of_none hnone, ← h.exact, Nat.add_zero] at htotal
    show addU64 s.1.currentSize size =
      ((s.1.metadata.insert key info).filter fun k => decide (k ∈ insert key s.2)).total _
    rw [hfilter, htotal, addU64_of_lt hbound]

private lemma ScanAccounted.foldl (root : List DirEntry) (clock : Str → ℕ)
    (files : List (Str × ℕ)) {s : ScanState} (h : ScanAccounted s)
    (hvalid : ∀ p ∈ files, isValidPieceKey p.1 = true)
    (hdistinct : (files.map Prod.fst).Nodup) (hnew : ∀ p ∈ files, p.1 ∉ s.2)
    (hbound : s.1.currentSize + (files.map Prod.snd).sum < 2 ^ 64) :
    ScanAccounted (files.foldl (fun s p => registerScanned root clock s p.1 p.2) s) ∧
      (files.foldl (fun s p => registerScanned root clock s p.1 p.2) s).1.currentSize
        < 2 ^ 64 := by
  induction files generalizing s with
  | nil => exact ⟨h, by simpa using hbound⟩
  | cons p files ih =>
    simp only [map_cons, nodup_cons, sum_cons] at hdistinct hbound
    have hsize : s.1.currentSize + p.2 < 2 ^ 64 := by omega
    have hreg : ScanAccounted (registerScanned root clock s p.1 p.2) :=
      h.register (hvalid p (by simp)) (hnew p (by simp)) hsize
    refine ih hreg (fun q hq => hvalid q (by simp [hq])) hdistinct.2 ?_ ?_
    · -- a later file has another key, so it is still new
      intro q hq hmem
      rcases Finset.mem_insert.mp hmem with heq | hmem
      · exact hdistinct.1 (heq ▸ mem_map_of_mem hq)
      · exact hnew q (by simp [hq]) hmem
    · have hcur : (registerScanned root clock s p.1 p.2).1.currentSize =
          s.1.currentSize + p.2 := addU64_of_lt hsize
      rw [hcur]
      omega

lemma WellAccounted.of_new {content : CacheContent} {maxCacheSize : ℕ} {clock : Str → ℕ}
    {saveFails : Bool} (hexact : content.Exact)
    (hnew : new content maxCacheSize clock saveFails = .ok c) : WellAccounted c := by
  have hfresh : ScanAccounted (fresh content maxCacheSize, ∅) := by
    refine ⟨by simp, ?_⟩
    rw [total_of_keys_empty _ (by simp)]
    rfl
  have hwalk := hfresh.foldl (content.pieces.getD []) clock (startupFiles content)
    (fun p hp => valid_of_mem_pieceFiles _ _ hp) hexact.1 (by simp)
    (by simpa [fresh] using hexact.2)
  rw [new_eq_ok hnew]
  refine ⟨?_, hwalk.1.exact, hwalk.2⟩
  intro key hkey
  have hmet := (Finset.mem_filter.mp hkey).2
  exact hwalk.1.metValid key (by simpa using hmet)

/-! ### The calls under the lock -/

section

variable (h : WellAccounted c)
include h

lemma WellAccounted.upsertRecord (now : ℕ) {key : Str} {size : ℕ}
    (hvalid : isValidPieceKey key = true) (hcredit : c.CreditsExactly key size) :
    WellAccounted (c.upsertRecord now key size) := by
  obtain ⟨hgrow, hbound⟩ := hcredit
  have hcur : (c.upsertRecord now key size).currentSize =
      c.currentSize + (size - c.registeredSize key) := addU64_of_lt hbound
  refine ⟨?_, ?_, hcur ▸ hbound⟩
  · exact Finset.forall_mem_insert _ _ _ |>.mpr ⟨hvalid, h.keysValid⟩
  · have htotal : (c.upsertRecord now key size).registeredTotal + c.registeredSize key =
        c.registeredTotal + size := total_insert_add _ _ _ _
    have hexact := h.exact
    omega

lemma WellAccounted.removePiece {f : Faults} {key : Str} (hrm : c.removePiece f key = .ok c') :
    WellAccounted c' := by
  have hremoved := removed_of_removePiece hrm
  have hsum : c'.registeredTotal + c.registeredSize key = c.registeredTotal := by
    unfold registeredTotal
    rw [hremoved.metadata]
    exact total_erase_add _ _ _
  have hexact := h.exact
  have hbounded := h.bounded
  have hsize := hremoved.size
  refine ⟨?_, ?_, ?_⟩
  · intro k hk
    rw [hremoved.metadata, keys_erase] at hk
    exact h.keysValid k (Finset.mem_of_mem_erase hk)
  · by_cases hvalid : isValidPieceKey key = true
    · rw [if_pos hvalid] at hsize
      omega
    · -- an invalid key is never registered, so there is nothing to debit
      have hnone : c.metadata.get key = none :=
        FinMap.notMem_keys.mp fun hmem => hvalid (h.keysValid key hmem)
      have hzero : c.registeredSize key = 0 := weight_of_none hnone
      rw [if_neg hvalid] at hsize
      omega
  · split at hsize <;> omega

lemma WellAccounted.recordAccess (now : ℕ) (key : Str) :
    WellAccounted (c.recordAccess now key).1 := by
  unfold CacheManager.recordAccess
  cases hget : c.metadata.get key with
  | none => exact h.congr rfl rfl
  | some info =>
    have htotal := total_insert_add c.metadata PieceMetadata.size key
      { info with lastAccessed := now, hitCount := addU64 info.hitCount 1 }
    rw [weight_of_get hget] at htotal
    refine ⟨?_, ?_, h.bounded⟩
    · intro k hk
      rcases Finset.mem_insert.mp hk with rfl | hk
      · exact h.keysValid k (mem_keys_of_get hget)
      · exact h.keysValid k hk
    · exact h.exact.trans (Nat.add_right_cancel htotal).symm

lemma WellAccounted.dropInfohashState (infoHash : Str) :
    WellAccounted (c.dropInfohashState infoHash) := by
  have hsplit := total_filter_add c.metadata PieceMetadata.size (ofInfohash infoHash)
  have hexact : c.currentSize = c.metadata.total PieceMetadata.size := h.exact
  have hbounded := h.bounded
  have hmod : (c.metadata.filter (ofInfohash infoHash)).total PieceMetadata.size % 2 ^ 64 =
      (c.metadata.filter (ofInfohash infoHash)).total PieceMetadata.size :=
    Nat.mod_eq_of_lt (by omega)
  refine ⟨fun k hk => h.keysValid k (Finset.mem_of_mem_filter k hk), ?_, ?_⟩
  · show c.currentSize - _ % 2 ^ 64 =
      (c.metadata.filter fun k => !ofInfohash infoHash k).total PieceMetadata.size
    rw [hmod]
    omega
  · exact lt_of_le_of_lt (Nat.sub_le _ _) hbounded

end

lemma new_of_step {content : CacheContent} {maxCacheSize : ℕ} {clock : Str → ℕ} {saveFails : Bool}
    (hstep : c.step (.startup content maxCacheSize clock saveFails) = some c') :
    new content maxCacheSize clock saveFails = .ok c' := by
  rw [CacheManager.step] at hstep
  cases hnew : new content maxCacheSize clock saveFails with
  | error e => simp [hnew, Except.toOption] at hstep
  | ok c₁ => simpa [hnew, Except.toOption] using hstep

lemma kept_wellAccounted : Kept WellAccounted :=
  ⟨fun h => h.removePiece, fun h => h.congr rfl rfl, fun h => h.congr rfl rfl,
    fun h => h.congr rfl rfl⟩

lemma WellAccounted.step {op : CacheOp} (h : WellAccounted c) (hop : op.Exact c)
    (hstep : c.step op = some c') : WellAccounted c' := by
  cases op with
  | startup content maxCacheSize clock saveFails => exact .of_new hop (new_of_step hstep)
  | recordAccess now key =>
    cases hstep
    exact h.recordAccess now key
  | addPiece now f key size =>
    cases hstep
    exact kept_wellAccounted.addPiece h fun hvalid =>
      (h.upsertRecord now hvalid (hop hvalid)).congr rfl rfl
  | registerIncompletePiece now f key size =>
    cases hstep
    -- the marker is written before the record, and touches neither map nor size
    refine kept_wellAccounted.registerIncompletePiece h fun hvalid hcreate hsync => ?_
    exact ((kept_wellAccounted.marked h).upsertRecord now hvalid
      (hop hvalid hcreate hsync)).congr rfl rfl
  | evictLru f =>
    cases hstep
    exact kept_wellAccounted.evictLru h f
  | deletePiece f key =>
    cases hstep
    exact kept_wellAccounted.deletePiece h f key
  | dropInfohashState infoHash =>
    cases hstep
    exact h.dropInfohashState infoHash
  | markVerified key =>
    cases hstep
    exact h.congr rfl rfl

/-- From any content of the cache directory that the startup walk accounts exactly, every run
of exact calls keeps the accounted size equal to the sum of the recorded sizes; it is zero
whenever no piece is registered. -/
theorem accounted_of_exact_run (content : CacheContent) (maxCacheSize : ℕ) (clock : Str → ℕ)
    (saveFails : Bool) (c₀ c : CacheManager) (ops : List CacheOp) (hcontent : content.Exact)
    (hnew : new content maxCacheSize clock saveFails = .ok c₀)
    (hops : Run.Along step (fun c op => op.Exact c) c₀ ops)
    (hrun : Run.runFrom step c₀ ops = some c) :
    c.currentSize = c.registeredTotal ∧ (c.metadata.keys = ∅ → c.currentSize = 0) := by
  have hinv : WellAccounted c :=
    Run.invariant_of_run_along (fun _ _ _ hinv hop hstep => WellAccounted.step hinv hop hstep)
      (.of_new hcontent hnew) hops hrun
  refine ⟨hinv.exact, fun hempty => ?_⟩
  rw [hinv.exact, registeredTotal, FinMap.total_of_keys_empty _ hempty]

theorem accounted_of_growing_piece : ∃ c₀ c, new ⟨none, none⟩ 1000 (fun _ => 0) false = .ok c₀ ∧
      Run.runFrom step c₀ [.addPiece 1 .none sampleKey 40, .addPiece 2 .none sampleKey 100] =
        some c ∧ c.registeredTotal = 100 ∧
      (c.currentSize = c.registeredTotal ∧ (c.metadata.keys = ∅ → c.currentSize = 0)) := by
  refine ⟨_, _, rfl, rfl, by decide, ?_⟩
  refine accounted_of_exact_run ⟨none, none⟩ 1000 (fun _ => 0) false _ _
    [.addPiece 1 .none sampleKey 40, .addPiece 2 .none sampleKey 100] ?_ rfl ?_ rfl
  · exact ⟨by decide, by decide⟩
  · refine ⟨fun _ => ⟨by decide, by decide⟩, fun t ht => ?_⟩
    cases ht
    exact ⟨fun _ => ⟨by decide, by decide⟩, fun _ _ => trivial⟩

/-- A piece registered with 100 bytes and again with 40 stays accounted with 100. -/
theorem shrinking_registration_not_debited :
    ∃ c₀ c, new ⟨none, none⟩ 1000 (fun _ => 0) false = .ok c₀ ∧
      Run.runFrom step c₀ [.addPiece 1 .none sampleKey 100, .addPiece 2 .none sampleKey 40] =
        some c ∧ c.currentSize = 100 ∧ c.registeredTotal = 40 :=
  ⟨_, _, rfl, rfl, by decide, by decide⟩

end CacheManager

end TorrentFs.Cache
