import TorrentFs.Cache.Index

/-!
# What an eviction pass removes

`evict_lru` takes its victims from the access order, skipping the incomplete pieces and those whose
file cannot be unlinked. One iteration leaves the records it does not remove as they were, so the
order of the pass is the order of the state it started from.
-/

namespace TorrentFs.Cache

open Text Word FinMap Finset

namespace CacheManager

def accessEntry (c : CacheManager) (key : Str) : ℕ ×ₗ Str :=
  toLex (c.metadata.weight PieceMetadata.lastAccessed key, key)

variable {c : CacheManager} {f : Faults} {p : CacheManager × Finset Str}

lemma Indexed.accessEntry_mem (h : Indexed c) {key : Str}
    (hkey : key ∈ c.metadata.keys) : c.accessEntry key ∈ c.lru := by
  obtain ⟨info, hget⟩ := FinMap.mem_keys_iff_exists.mp hkey
  exact (h _ _).mpr ⟨info, hget, (weight_of_get hget).symm⟩

lemma Indexed.eq_accessEntry (h : Indexed c) {e : ℕ ×ₗ Str}
    (he : e ∈ c.lru) : (ofLex e).2 ∈ c.metadata.keys ∧ e = c.accessEntry (ofLex e).2 := by
  obtain ⟨info, hget, htime⟩ := (h (ofLex e).1 (ofLex e).2).mp he
  refine ⟨mem_keys_of_get hget, ?_⟩
  rw [accessEntry, weight_of_get hget, htime]
  rfl

lemma maxCacheSize_removePiece {c' : CacheManager} {key : Str}
    (h : c.removePiece f key = .ok c') : c'.maxCacheSize = c.maxCacheSize := by
  unfold removePiece at h
  split at h
  · cases h
    rfl
  · split at h
    · cases h
    · cases h
      rfl

/-- A piece an eviction pass may remove: neither incomplete nor undeletable. -/
def Evictable (c : CacheManager) (f : Faults) (key : Str) : Prop :=
  key ∉ c.incompletePieceKeys ∧ ¬ Undeletable f key

/-- `p` is a state a pass over `c` goes through. -/
structure EvictionPass (f : Faults) (c : CacheManager) (p : CacheManager × Finset Str) : Prop where
  indexed : Indexed p.1
  limit : p.1.maxCacheSize = c.maxCacheSize
  incomplete : p.1.incompletePieceKeys = c.incompletePieceKeys
  record : ∀ key ∈ p.1.metadata.keys, p.1.metadata.get key = c.metadata.get key
  disk : ∀ key, (key ∈ c.metadata.keys → key ∈ p.1.metadata.keys) →
    p.1.cacheDir.file key = c.cacheDir.file key ∧ p.1.cacheDir.marker key = c.cacheDir.marker key
  unlinked : ∀ key ∈ c.metadata.keys, key ∉ p.1.metadata.keys → isValidPieceKey key = true →
    p.1.cacheDir.file key = none ∧
      (p.1.cacheDir.marker key = false ∨ f.unlinkMarker key = true)
  failed : ∀ key ∈ p.2, Undeletable f key
  removed : ∀ key ∈ c.metadata.keys, key ∉ p.1.metadata.keys → c.Evictable f key ∧
    ∀ k ∈ p.1.metadata.keys, c.Evictable f k → c.accessEntry key < c.accessEntry k

namespace EvictionPass

variable {f : Faults} {c : CacheManager} {p p' : CacheManager × Finset Str}

lemma refl (h : Indexed c) (f : Faults) : EvictionPass f c (c, ∅) :=
  ⟨h, rfl, rfl, fun _ _ => rfl, fun _ _ => ⟨rfl, rfl⟩, fun _ hkey hgone => absurd hkey hgone,
    fun _ hkey => absurd hkey (notMem_empty _), fun _ hkey hgone => absurd hkey hgone⟩

lemma accessEntry_eq (h : EvictionPass f c p) {key : Str} (hkey : key ∈ p.1.metadata.keys) :
    p.1.accessEntry key = c.accessEntry key := by
  simp only [accessEntry, FinMap.weight, h.record key hkey]

/-- A piece that is left, or that was not there, is not the one that is removed next. -/
lemma ne_of_left (h : EvictionPass f c p) {key k : Str} (hkey : key ∈ p.1.metadata.keys)
    (hleft : k ∈ c.metadata.keys → k ∈ p.1.metadata.keys.erase key) :
    k ≠ key ∧ (k ∈ c.metadata.keys → k ∈ p.1.metadata.keys) := by
  refine ⟨?_, fun hk => mem_of_mem_erase (hleft hk)⟩
  rintro rfl
  have hold : k ∈ c.metadata.keys := by
    rwa [FinMap.mem_keys, ← h.record k hkey, ← FinMap.mem_keys]
  exact notMem_erase k _ (hleft hold)

lemma get_of_incomplete (h : EvictionPass f c p) {key : Str}
    (hkey : key ∈ c.incompletePieceKeys) : p.1.metadata.get key = c.metadata.get key := by
  by_cases hleft : key ∈ p.1.metadata.keys
  · exact h.record key hleft
  · have hnever : key ∉ c.metadata.keys := by
      intro hreg
      exact (h.removed key hreg hleft).1.1 hkey
    rw [FinMap.notMem_keys.mp hleft, FinMap.notMem_keys.mp hnever]

lemma remove (h : EvictionPass f c p) {e : ℕ ×ₗ Str} {c₁ : CacheManager}
    (hold : p.1.oldest p.2 = some e) (hrm : p.1.removePiece f (ofLex e).2 = .ok c₁) :
    EvictionPass f c ({ c₁ with evictionCount := addU64 c₁.evictionCount 1 }, p.2) := by
  obtain ⟨hmem, hinc, -, hfirst⟩ := oldest_eq_some hold
  have hremoved := removed_of_removePiece hrm
  obtain ⟨hkey, hentry⟩ := h.indexed.eq_accessEntry hmem
  have hdeletable : ¬ Undeletable f (ofLex e).2 := by
    intro hfail
    cases hrm.symm.trans (removePiece_eq_error_iff.mpr ⟨hfail, rfl⟩)
  have hkeys : c₁.metadata.keys = p.1.metadata.keys.erase (ofLex e).2 := by
    rw [hremoved.metadata, keys_erase]
  have hindexed : Indexed c₁ := h.indexed.removePiece hrm
  refine ⟨hindexed, (maxCacheSize_removePiece hrm).trans h.limit, ?_, ?_, ?_, ?_, h.failed, ?_⟩
  · -- the piece removed is not incomplete, so the set keeps its keys
    rw [hremoved.incomplete, erase_eq_of_notMem hinc, h.incomplete]
  · intro key hk
    replace hk : key ∈ c₁.metadata.keys := hk
    rw [hkeys, mem_erase] at hk
    rw [hremoved.metadata, get_erase, if_neg hk.1]
    exact h.record key hk.2
  · intro key hleft
    replace hleft : key ∈ c.metadata.keys → key ∈ c₁.metadata.keys := hleft
    rw [hkeys] at hleft
    obtain ⟨hne, hleft⟩ := h.ne_of_left hkey hleft
    obtain ⟨hfile, hmarker⟩ := h.disk key hleft
    exact ⟨(hremoved.file key hne).trans hfile, (hremoved.marker key hne).trans hmarker⟩
  · intro key hreg hgone hvalid
    by_cases heq : key = (ofLex e).2
    · subst heq
      have hunlinked := unlinked_of_removePiece hvalid hrm
      exact hunlinked
    · replace hgone : key ∉ c₁.metadata.keys := hgone
      rw [hkeys, mem_erase, not_and] at hgone
      obtain ⟨hfile, hmarker⟩ := h.unlinked key hreg (hgone heq) hvalid
      exact ⟨(hremoved.file key heq).trans hfile,
        hmarker.imp_left (hremoved.marker key heq).trans⟩
  · intro key hreg hgone
    replace hgone : key ∉ c₁.metadata.keys := hgone
    rw [hkeys, mem_erase, not_and_or, not_not] at hgone
    rcases hgone with rfl | hgone
    · refine ⟨⟨h.incomplete ▸ hinc, hdeletable⟩, fun k hk hevictable => ?_⟩
      replace hk : k ∈ c₁.metadata.keys := hk
      rw [hkeys, mem_erase] at hk
      -- a piece that could be removed was not skipped, so it stands behind the one that was taken
      rw [← h.accessEntry_eq hkey, ← h.accessEntry_eq hk.2, ← hentry]
      apply lt_of_le_of_ne
      · exact hfirst _ (h.indexed.accessEntry_mem hk.2) (h.incomplete ▸ hevictable.1)
          fun hskip => hevictable.2 (h.failed k hskip)
      · intro heq
        exact hk.1 (congrArg (fun e => (ofLex e).2) heq).symm
    · obtain ⟨hevictable, hbefore⟩ := h.removed key hreg hgone
      refine ⟨hevictable, fun k hk => hbefore k ?_⟩
      replace hk : k ∈ c₁.metadata.keys := hk
      rw [hkeys] at hk
      exact mem_of_mem_erase hk

lemma evictStep (h : EvictionPass f c p) (hstep : evictStep f p = some p') :
    EvictionPass f c p' := by
  obtain ⟨e, -, hold, ⟨c₁, hrm, rfl⟩ | ⟨hfail, rfl⟩⟩ := evictStep_cases hstep
  · exact h.remove hold hrm
  · refine ⟨h.indexed, h.limit, h.incomplete, h.record, h.disk, h.unlinked, fun key hkey => ?_,
      h.removed⟩
    rcases Finset.mem_insert.mp hkey with rfl | hkey
    · exact hfail
    · exact h.failed key hkey

end EvictionPass

lemma evictionPass_evictLoop (h : Indexed c) (f : Faults) (n : ℕ) :
    EvictionPass f c (evictLoop f n (c, ∅)) :=
  evictLoop_invariant (fun _ _ hp hstep => EvictionPass.evictStep hp hstep) n _ (.refl h f)

lemma evictLoop_of_ended {n m : ℕ} (h : evictStep f (evictLoop f n p) = none) (hle : n ≤ m) :
    evictLoop f m p = evictLoop f n p := by
  induction n generalizing m p with
  | zero =>
    cases m with
    | zero => rfl
    | succ m =>
      rw [evictLoop] at h
      rw [evictLoop, evictLoop, h]
  | succ n ih =>
    obtain ⟨m, rfl⟩ := Nat.exists_eq_add_of_lt hle
    rw [evictLoop] at h ⊢
    rw [evictLoop]
    cases hstep : CacheManager.evictStep f p with
    | none => rfl
    | some p' =>
      simp only [hstep] at h
      exact ih h (by omega)

lemma evictStep_of_le (h : p.1.currentSize ≤ p.1.maxCacheSize) : evictStep f p = none := by
  rw [evictStep, if_neg fun hover => absurd hover.1 (Nat.not_lt.mpr h)]

lemma left_of_ended (hindexed : Indexed p.1)
    (h : evictStep f p = none) : p.1.currentSize ≤ p.1.maxCacheSize ∨
      ∀ key ∈ p.1.metadata.keys, key ∈ p.1.incompletePieceKeys ∨ key ∈ p.2 := by
  by_contra! hleft
  obtain ⟨hover, key, hkey, hinc, hskip⟩ := hleft
  obtain ⟨c, skipped⟩ := p
  have hcandidate : c.accessEntry key ∈ c.lru.filter fun e =>
      (ofLex e).2 ∉ c.incompletePieceKeys ∧ (ofLex e).2 ∉ skipped :=
    Finset.mem_filter.mpr ⟨hindexed.accessEntry_mem hkey, hinc, hskip⟩
  obtain ⟨e, he⟩ := min_of_mem hcandidate
  have hold : c.oldest skipped = some e := he
  have hnonempty : c.metadata.isEmpty = false := by
    simp [FinMap.isEmpty, ne_empty_of_mem hkey]
  rw [CacheManager.evictStep] at h
  simp only [hover, hnonempty, and_self, if_true, hold] at h
  cases hrm : c.removePiece f (ofLex e).2 <;> simp [hrm] at h

/-- From every state with an exact index, an eviction pass runs its loop to the end. Then the size
is within the budget or every piece left is incomplete or could not be deleted; the incomplete
pieces are as they were; every piece removed was complete and deletable, accessed before each such
piece that is left, and has lost its file and its marker; all other files are untouched; and once
the size is within the budget nothing more is removed. -/
theorem evictLru_removes_oldest {c : CacheManager} (h : Indexed c) (f : Faults) :
    evictStep f (c.evictLru f) = none ∧ ((c.evictLru f).1.currentSize ≤ c.maxCacheSize ∨
        ∀ key ∈ (c.evictLru f).1.metadata.keys,
          key ∈ c.incompletePieceKeys ∨ key ∈ (c.evictLru f).2) ∧
      (∀ key ∈ (c.evictLru f).2, Undeletable f key) ∧
      ((c.evictLru f).1.incompletePieceKeys = c.incompletePieceKeys ∧ ∀ key ∈ c.incompletePieceKeys,
          (c.evictLru f).1.metadata.get key = c.metadata.get key ∧
          (c.evictLru f).1.cacheDir.file key = c.cacheDir.file key) ∧
      (∀ key ∈ c.metadata.keys, key ∉ (c.evictLru f).1.metadata.keys →
        c.Evictable f key ∧ (∀ k ∈ (c.evictLru f).1.metadata.keys, c.Evictable f k →
          c.accessEntry key < c.accessEntry k) ∧
        (isValidPieceKey key = true → (c.evictLru f).1.cacheDir.file key = none ∧
          ((c.evictLru f).1.cacheDir.marker key = false ∨ f.unlinkMarker key = true))) ∧
      (∀ key, (key ∈ c.metadata.keys → key ∈ (c.evictLru f).1.metadata.keys) →
        (c.evictLru f).1.cacheDir.file key = c.cacheDir.file key ∧
        (c.evictLru f).1.cacheDir.marker key = c.cacheDir.marker key) ∧
      ∀ n, (evictLoop f n (c, ∅)).1.currentSize ≤ c.maxCacheSize →
        c.evictLru f = evictLoop f n (c, ∅) := by
  have hend := evictStep_evictLru h f
  have hpass : EvictionPass f c (c.evictLru f) := evictionPass_evictLoop h f _
  refine ⟨hend, ?_, hpass.failed, ⟨hpass.incomplete, fun key hkey => ?_⟩,
    fun key hreg hgone => ?_, hpass.disk, fun n hwithin => ?_⟩
  · rw [← hpass.limit, ← hpass.incomplete]
    exact left_of_ended hpass.indexed hend
  · refine ⟨hpass.get_of_incomplete hkey, (hpass.disk key fun hreg => ?_).1⟩
    by_contra hgone
    exact (hpass.removed key hreg hgone).1.1 hkey
  · obtain ⟨hevictable, horder⟩ := hpass.removed key hreg hgone
    exact ⟨hevictable, horder, hpass.unlinked key hreg hgone⟩
  · have hpassn := evictionPass_evictLoop h f n
    have hendn : evictStep f (evictLoop f n (c, ∅)) = none :=
      evictStep_of_le (hpassn.limit ▸ hwithin)
    rcases le_total n c.lru.card with hle | hle
    · exact evictLoop_of_ended hendn hle
    · exact (evictLoop_of_ended hend hle).symm

/-! ### Pieces that evictions leave alone -/

/-- The complete pieces `older` are evicted before the piece of a key, and with them gone there is
room for a growth of the accounted size. -/
structure Shield (c : CacheManager) (older : Finset Str) (key : Str) (growth : ℕ) : Prop where
  fits : growth ≤ c.maxCacheSize
  valid : ∀ k ∈ older, isValidPieceKey k = true
  complete : ∀ k ∈ older, k ∉ c.incompletePieceKeys
  before : ∀ k ∈ older, k ∈ c.metadata.keys → c.accessEntry k < c.accessEntry key
  room : c.currentSize + growth ≤ c.maxCacheSize + ∑ k ∈ older, c.registeredSize k

/-- No eviction takes the piece of a key while the accounted size grows by at most `growth`. -/
def Safe (c : CacheManager) (older : Finset Str) (key : Str) (growth : ℕ) : Prop :=
  key ∈ c.incompletePieceKeys ∨ key ∉ c.metadata.keys ∨ c.Shield older key growth

section Shield

variable {c : CacheManager} {f : Faults} {older : Finset Str} {key : Str} {growth : ℕ}

lemma Shield.mono (h : c.Shield older key growth) {less : ℕ} (hle : less ≤ growth) :
    c.Shield older key less :=
  ⟨hle.trans h.fits, h.valid, h.complete, h.before, (Nat.add_le_add_left hle _).trans h.room⟩

lemma Safe.mono (h : c.Safe older key growth) {less : ℕ} (hle : less ≤ growth) :
    c.Safe older key less :=
  h.imp_right fun h => h.imp_right fun h => h.mono hle

lemma Safe.of_same (h : c.Safe older key growth) {c' : CacheManager}
    (hmetadata : c'.metadata = c.metadata)
    (hincomplete : c'.incompletePieceKeys = c.incompletePieceKeys)
    (hsize : c'.currentSize = c.currentSize) (hlimit : c'.maxCacheSize = c.maxCacheSize) :
    c'.Safe older key growth := by
  rcases h with hkey | hkey | hshield
  · exact .inl (hincomplete ▸ hkey)
  · exact .inr (.inl (hmetadata ▸ hkey))
  · refine .inr (.inr ⟨hlimit ▸ hshield.fits, hshield.valid,
      hincomplete ▸ hshield.complete, ?_, ?_⟩)
    · simpa only [accessEntry, hmetadata] using hshield.before
    · simpa only [registeredSize, hmetadata, hsize, hlimit] using hshield.room

/-- An eviction takes a piece of `older` before the piece of the key. -/
lemma Shield.oldest_ne (h : c.Shield older key growth) (hindexed : Indexed c)
    {skipped : Finset Str} (hskipped : ∀ k ∈ skipped, Undeletable f k)
    (hdeletable : ∀ k ∈ older, f.unlink k = false) (hover : c.maxCacheSize < c.currentSize)
    {e : ℕ ×ₗ Str} (hold : c.oldest skipped = some e) : (ofLex e).2 ≠ key := by
  rintro rfl
  obtain ⟨hmem, -, -, hfirst⟩ := oldest_eq_some hold
  obtain ⟨k, hk, hsize⟩ : ∃ k ∈ older, c.registeredSize k ≠ 0 := by
    by_contra! hnone
    have hroom := h.room
    rw [Finset.sum_eq_zero hnone] at hroom
    omega
  have hreg : k ∈ c.metadata.keys := by
    by_contra hnot
    exact hsize (weight_of_none (FinMap.notMem_keys.mp hnot))
  have hle := hfirst _ (hindexed.accessEntry_mem hreg) (h.complete k hk) fun hskip => by
    have hfails := (hskipped k hskip).2
    rw [hdeletable k hk] at hfails
    cases hfails
  have hlt := h.before k hk hreg
  rw [← (hindexed.eq_accessEntry hmem).2] at hlt
  exact absurd (lt_of_le_of_lt hle hlt) (lt_irrefl _)

lemma accessEntry_removed {c' : CacheManager} {gone k : Str} (h : Removed c gone c')
    (hne : k ≠ gone) : c'.accessEntry k = c.accessEntry k := by
  simp [accessEntry, FinMap.weight, h.metadata, hne]

lemma registeredSize_removed {c' : CacheManager} {gone : Str} (h : Removed c gone c') (k : Str) :
    c'.registeredSize k = if k = gone then 0 else c.registeredSize k := by
  by_cases hk : k = gone <;> simp [registeredSize, FinMap.weight, h.metadata, hk]

lemma Shield.removePiece (h : c.Shield older key growth) {c' : CacheManager} {gone : Str}
    (hne : gone ≠ key) (hrm : c.removePiece f gone = .ok c') : c'.Shield older key growth := by
  have hremoved := removed_of_removePiece hrm
  have hlimit := maxCacheSize_removePiece hrm
  refine ⟨hlimit ▸ h.fits, h.valid, fun k hk hmem => ?_, fun k hk hreg => ?_, ?_⟩
  · rw [hremoved.incomplete] at hmem
    exact h.complete k hk (mem_of_mem_erase hmem)
  · rw [hremoved.metadata, keys_erase, mem_erase] at hreg
    rw [accessEntry_removed hremoved hreg.1, accessEntry_removed hremoved hne.symm]
    exact h.before k hk hreg.2
  · have hroom := h.room
    have hfits := h.fits
    have hsize := hremoved.size
    simp only [registeredSize_removed hremoved, hlimit]
    by_cases hgone : gone ∈ older
    · -- what the accounted size loses, the sum over the older pieces loses too
      rw [if_pos (h.valid gone hgone)] at hsize
      rw [← Finset.add_sum_erase _ _ hgone] at hroom
      have hrest : ∑ k ∈ older, (if k = gone then 0 else c.registeredSize k) =
          ∑ k ∈ older.erase gone, c.registeredSize k := by
        rw [← Finset.add_sum_erase _ _ hgone, if_pos rfl, Nat.zero_add]
        exact Finset.sum_congr rfl fun k hk => if_neg (Finset.ne_of_mem_erase hk)
      omega
    · have hsame : ∑ k ∈ older, (if k = gone then 0 else c.registeredSize k) =
          ∑ k ∈ older, c.registeredSize k :=
        Finset.sum_congr rfl fun k hk => if_neg fun heq : k = gone => hgone (heq ▸ hk)
      have hle : c'.currentSize ≤ c.currentSize := by
        rw [hsize]
        split <;> omega
      omega

/-- What a pass keeps of a safe piece. -/
structure SafePass (f : Faults) (older : Finset Str) (key : Str) (growth : ℕ) (c : CacheManager)
    (p : CacheManager × Finset Str) : Prop where
  indexed : Indexed p.1
  failed : ∀ k ∈ p.2, Undeletable f k
  file : p.1.cacheDir.file key = c.cacheDir.file key
  safe : p.1.Safe older key growth

lemma SafePass.evictStep (hdeletable : ∀ k ∈ older, f.unlink k = false)
    {p p' : CacheManager × Finset Str} (h : SafePass f older key growth c p)
    (hstep : evictStep f p = some p') : SafePass f older key growth c p' := by
  obtain ⟨e, hover, hold, ⟨c₁, hrm, rfl⟩ | ⟨hfail, rfl⟩⟩ := evictStep_cases hstep
  · obtain ⟨hmem, hinc, -, -⟩ := oldest_eq_some hold
    have hremoved := removed_of_removePiece hrm
    have hne : (ofLex e).2 ≠ key := by
      rcases h.safe with hkey | hkey | hshield
      · exact fun heq => hinc (heq ▸ hkey)
      · exact fun heq => hkey (heq ▸ (h.indexed.eq_accessEntry hmem).1)
      · exact hshield.oldest_ne h.indexed h.failed hdeletable hover hold
    have hindexed : Indexed c₁ := h.indexed.removePiece hrm
    refine ⟨hindexed, h.failed, (hremoved.file key hne.symm).trans h.file, ?_⟩
    rcases h.safe with hkey | hkey | hshield
    · exact .inl (hremoved.incomplete ▸ Finset.mem_erase.mpr ⟨hne.symm, hkey⟩)
    · refine .inr (.inl fun hreg => hkey ?_)
      replace hreg : key ∈ c₁.metadata.keys := hreg
      rw [hremoved.metadata, keys_erase] at hreg
      exact mem_of_mem_erase hreg
    · exact Safe.of_same (.inr (.inr (hshield.removePiece hne hrm))) rfl rfl rfl rfl
  · refine ⟨h.indexed, fun k hk => ?_, h.file, h.safe⟩
    rcases Finset.mem_insert.mp hk with rfl | hk
    · exact hfail
    · exact h.failed k hk

lemma Safe.evictIfOver (h : c.Safe older key growth) (hindexed : Indexed c)
    (hdeletable : ∀ k ∈ older, f.unlink k = false) :
    (c.evictIfOver f).cacheDir.file key = c.cacheDir.file key ∧
      (c.evictIfOver f).Safe older key growth := by
  unfold CacheManager.evictIfOver
  split
  · have hpass : SafePass f older key growth c (c.evictLru f) :=
      evictLoop_invariant (fun _ _ hp hstep => hp.evictStep hdeletable hstep) _ _
        ⟨hindexed, fun _ hk => absurd hk (notMem_empty _), rfl, h⟩
    exact ⟨hpass.file, hpass.safe⟩
  · exact ⟨rfl, h⟩

/-- Registering an incomplete piece outside `older` uses up as much of the growth as its file is
long. -/
lemma Safe.registerIncompletePiece {size rest : ℕ} (h : c.Safe older key (size + rest))
    (hindexed : Indexed c) (hdeletable : ∀ k ∈ older, f.unlink k = false) (now : ℕ) {k : Str}
    (hk : k ∉ older) :
    (c.registerIncompletePiece now f k size).1.cacheDir.file key = c.cacheDir.file key ∧
      (c.registerIncompletePiece now f k size).1.Safe older key rest := by
  rcases registerIncompletePiece_cases c now f k size with
    ⟨-, heq⟩ | ⟨-, heq⟩ | ⟨-, -, -, heq⟩
  · rw [heq]
    exact ⟨rfl, h.mono (Nat.le_add_left _ _)⟩
  · rw [heq]
    exact ⟨rfl, (h.mono (Nat.le_add_left _ _)).of_same rfl rfl rfl rfl⟩
  · rw [heq]
    set marked := { c with cacheDir := c.cacheDir.createMarker k } with hmarked
    set next := (marked.upsertRecord now k size).setIncomplete k with hnext
    have hindexed' : Indexed next := Indexes.insert hindexed k
      ⟨now, size, ((c.metadata.get k).map PieceMetadata.hitCount).getD 0⟩
    have hsafe : next.Safe older key rest := by
      by_cases hkey : key = k
      · exact .inl (hkey ▸ Finset.mem_insert_self _ _)
      rcases h with hinc | hunregistered | hshield
      · exact .inl (Finset.mem_insert_of_mem hinc)
      · refine .inr (.inl fun hreg => hunregistered ?_)
        replace hreg : key ∈ (c.metadata.insert k _).keys := hreg
        rw [keys_insert] at hreg
        exact Finset.mem_of_mem_insert_of_ne hreg hkey
      · have hentry : ∀ k', k' ≠ k → next.accessEntry k' = c.accessEntry k' := by
          intro k' hne
          show toLex ((c.metadata.insert k _).weight _ k', k') = _
          simp [accessEntry, FinMap.weight, hne]
        have hsize : ∀ k' ∈ older, next.registeredSize k' = c.registeredSize k' := by
          intro k' hk'
          have hne : k' ≠ k := fun heq => hk (heq ▸ hk')
          show (c.metadata.insert k _).weight _ k' = _
          simp [registeredSize, FinMap.weight, hne]
        refine .inr (.inr ⟨?_, hshield.valid, fun k' hk' hinc => ?_, fun k' hk' hreg => ?_, ?_⟩)
        · exact (Nat.le_add_left _ _).trans hshield.fits
        · refine hshield.complete k' hk' (Finset.mem_of_mem_insert_of_ne hinc ?_)
          exact fun heq => hk (heq ▸ hk')
        · have hne : k' ≠ k := fun heq => hk (heq ▸ hk')
          replace hreg : k' ∈ (c.metadata.insert k _).keys := hreg
          rw [keys_insert] at hreg
          rw [hentry k' hne, hentry key hkey]
          exact hshield.before k' hk' (Finset.mem_of_mem_insert_of_ne hreg hne)
        · have hgrown : next.currentSize ≤ c.currentSize + size := by
            show (c.currentSize + (size - c.registeredSize k)) % 2 ^ 64 ≤ _
            exact (Nat.mod_le _ _).trans (by omega)
          have hroom := hshield.room
          have hsum : ∑ k ∈ older, next.registeredSize k = ∑ k ∈ older, c.registeredSize k :=
            Finset.sum_congr rfl hsize
          rw [hsum]
          show next.currentSize + rest ≤ c.maxCacheSize + _
          omega
    obtain ⟨hfile, hsafe⟩ := hsafe.evictIfOver hindexed' hdeletable
    exact ⟨hfile, hsafe.of_same rfl rfl rfl rfl⟩

end Shield

/-! ### Tags and files -/

/-- `c'` came from `c` by evictions: the incomplete pieces are the same, and a piece that is not
verified any more has lost its file. -/
structure Evicted (c c' : CacheManager) : Prop where
  incomplete : c'.incompletePieceKeys = c.incompletePieceKeys
  verified : c'.verifiedPieceKeys ⊆ c.verifiedPieceKeys
  file : ∀ key, c'.cacheDir.file key = c.cacheDir.file key ∨ c'.cacheDir.file key = none
  lost : ∀ key ∈ c.verifiedPieceKeys, isValidPieceKey key = true →
    key ∈ c'.verifiedPieceKeys ∨ c'.cacheDir.file key = none

namespace Evicted

variable {c c₁ c₂ : CacheManager}

lemma refl (c : CacheManager) : Evicted c c :=
  ⟨rfl, subset_rfl, fun _ => .inl rfl, fun _ hkey _ => .inl hkey⟩

variable {f : Faults}

lemma file_removePiece_of_invalid {key : Str}
    (hinvalid : isValidPieceKey key = false) (h : c.removePiece f key = .ok c₁) :
    c₁.cacheDir = c.cacheDir := by
  simp only [CacheManager.removePiece, hinvalid, Bool.not_false, if_true] at h
  cases h
  rfl

lemma removePiece (h : Evicted c c₁) {key : Str}
    (hinc : key ∉ c₁.incompletePieceKeys) (hrm : c₁.removePiece f key = .ok c₂) : Evicted c c₂ := by
  have hremoved := removed_of_removePiece hrm
  have hfile : ∀ k, c₂.cacheDir.file k = c₁.cacheDir.file k ∨
      k = key ∧ c₂.cacheDir.file k = none := by
    intro k
    by_cases hk : k = key
    · subst hk
      cases hvalid : isValidPieceKey k with
      | true => exact .inr ⟨rfl, (unlinked_of_removePiece hvalid hrm).1⟩
      | false => exact .inl (by rw [file_removePiece_of_invalid hvalid hrm])
    · exact .inl (hremoved.file k hk)
  refine ⟨?_, ?_, fun k => ?_, fun k hk hvalid => ?_⟩
  · rw [hremoved.incomplete, erase_eq_of_notMem hinc, h.incomplete]
  · rw [hremoved.verified]
    exact (erase_subset _ _).trans h.verified
  · rcases hfile k with hsame | ⟨-, hnone⟩
    · rw [hsame]
      exact h.file k
    · exact .inr hnone
  · by_cases heq : k = key
    · subst heq
      exact .inr (unlinked_of_removePiece hvalid hrm).1
    · rcases h.lost k hk hvalid with hkept | hnone
      · rw [hremoved.verified]
        exact .inl (Finset.mem_erase.mpr ⟨heq, hkept⟩)
      · rw [hremoved.file k heq]
        exact .inr hnone

end Evicted

lemma evicted_evictIfOver (c : CacheManager) (f : Faults) : Evicted c (c.evictIfOver f) :=
  evictIfOver_preserves (fun _ _ _ h hinc hrm => Evicted.removePiece h hinc hrm)
    (fun _ _ h => ⟨h.incomplete, h.verified, h.file, h.lost⟩) (.refl c)

def overfullRecords : FinMap Str PieceMetadata :=
  (FinMap.empty.insert sampleKey ⟨5, 60, 0⟩).insert (pieceKey sampleHash 1) ⟨3, 60, 0⟩

def overfull : CacheManager where
  cacheDir := ⟨fun _ => some [], fun _ => false⟩
  metadata := overfullRecords
  maxCacheSize := 100
  currentSize := 120
  missCount := 2
  hitCount := 0
  evictionCount := 0
  incompletePieceKeys := ∅
  verifiedPieceKeys := ∅
  lru := lruOf overfullRecords
  snapshotGeneration := 1
  metadataDirty := false

theorem evictLru_overfull :
    Indexed overfull ∧ (overfull.evictLru .none).1.metadata.keys = {sampleKey} ∧
      overfull.accessEntry (pieceKey sampleHash 1) < overfull.accessEntry sampleKey ∧
      (overfull.evictLru .none).1.cacheDir.file (pieceKey sampleHash 1) = none := by
  have hindexed : Indexed overfull := .of_lruOf _
  have hkeys : (overfull.evictLru .none).1.metadata.keys = {sampleKey} := by decide +kernel
  obtain ⟨-, -, -, -, hremoved, -⟩ := evictLru_removes_oldest hindexed .none
  obtain ⟨-, horder, hunlinked⟩ := hremoved (pieceKey sampleHash 1) (by decide +kernel)
    (by rw [hkeys]; decide +kernel)
  refine ⟨hindexed, hkeys, horder sampleKey ?_ ?_, (hunlinked (by decide +kernel)).1⟩
  · rw [hkeys]
    exact Finset.mem_singleton_self _
  · exact ⟨by decide +kernel, by decide +kernel⟩

end CacheManager

end TorrentFs.Cache
